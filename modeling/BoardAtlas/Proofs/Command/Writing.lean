import BoardAtlas.Proofs.Command.Batches
import BoardAtlas.Proofs.Library.Writing

/-!
# Files of many boards

A board that does not resolve, or whose facets cannot be made, keeps no other board from being written. A file that
cannot be written does: it ends the command, so that the files behind it are not written and no failure is told.

* `mem_files_batchOf`: the files of a batch;
* `fileBytes`, **`writeFiles_cases`**: files are written up to the first that cannot be;
* `Leaves`: what can be read then;
* **`perform_make_writes`**: what is written, told and returned;
* `perform_make_blocked`: a board whose file is not written because of another one.
-/

namespace BoardAtlas.Command

variable {r : Resolver} {facets : List Facet} {b : Board}

/-! ## Files of a batch -/

theorem IsEntry.mem_iff {entry : Dict Json} (h : IsEntry r facets b entry) {name : String} {v : Json} :
    (name, v) ∈ entry ↔ ∃ facet ∈ facets, name = facet.name ∧ facetOf r b facet = .ok v := by
  rw [IsEntry] at h
  simp only [← @mem_diagramFirst facets]
  generalize diagramFirst facets = told at h
  induction h with
  | nil => simp
  | @cons facet member told entry hone _ ih =>
    rw [List.mem_cons, ih, List.exists_mem_cons_iff, hone.2, ← hone.1, Except.ok.injEq, Prod.ext_iff]
    exact or_congr_left (and_congr_right fun _ => eq_comm)

theorem exists_isEntry_iff :
    (∃ entry, IsEntry r facets b entry) ↔ ∀ facet ∈ facets, ∃ v, facetOf r b facet = .ok v := by
  simp only [← renderFacets_eq_ok_iff, renderFacets, Except.exists_mapM_eq_ok_iff, mem_diagramFirst]
  refine forall_congr' fun facet => imp_congr_right fun _ => ?_
  cases facetOf r b facet <;> simp [Except.map]

/-- A batch has a file for each facet of each board whose facets can all be made. -/
theorem mem_files_batchOf {report : BatchReport} (hd : (report.boards.map Board.id).Nodup) {folder path : String}
    {v : Json} : (path, v) ∈ (batchOf r facets report).files folder ↔
      ∃ b ∈ report.boards, (∀ facet ∈ facets, ∃ v, facetOf r b facet = .ok v) ∧
        ∃ facet ∈ facets, path = facetPath folder b.id facet.name ∧ facetOf r b facet = .ok v := by
  obtain ⟨_, -, haccounts⟩ := accounts_batchOf hd
  rw [Batch.files, List.mem_flatMap]
  constructor
  · rintro ⟨⟨id, entry⟩, hmade, hmem⟩
    obtain ⟨b, hb, rfl, hentry⟩ := (haccounts.mem_made id entry).1 hmade
    obtain ⟨⟨name, v⟩, hmember, ⟨⟩⟩ := List.mem_map.1 hmem
    obtain ⟨facet, hfacet, rfl, hv⟩ := hentry.mem_iff.1 hmember
    exact ⟨b, hb, exists_isEntry_iff.1 ⟨entry, hentry⟩, facet, hfacet, rfl, hv⟩
  · rintro ⟨b, hb, hall, facet, hfacet, rfl, hv⟩
    obtain ⟨entry, hentry⟩ := exists_isEntry_iff.2 hall
    exact ⟨(b.id, entry), (haccounts.mem_made b.id entry).2 ⟨b, hb, rfl, hentry⟩,
      List.mem_map.2 ⟨(facet.name, v), hentry.mem_iff.2 ⟨facet, hfacet, rfl, hv⟩, rfl⟩⟩

/-! ## Writing files -/

/-- The text of a document in its file. -/
def fileText (v : Json) : String := v.pretty ++ "\n"

/-- A document with its path as bytes in a file. -/
def fileBytes (file : String × Json) : String × ByteArray := (file.1, (fileText file.2).toUTF8)

/-- The file can be written. -/
def isWritable (t : FileTree) (file : String × Json) : Bool := t.canWrite file.1

/-- **Files are written up to the first that cannot be.** Which one that is does not depend on those before it. -/
theorem writeFiles_cases (t : FileTree) (files : List (String × Json)) :
    let written := files.takeWhile (isWritable t)
    let result := writeFiles t files
    t.Written (written.map fileBytes) result.1 ∧
      (written = files ∧ result.2 = none ∨
        ∃ path v rest fault, files = written ++ (path, v) :: rest ∧
          result.1.write path (fileText v).toUTF8 = .error fault ∧ result.2 = some (.writing path fault)) := by
  induction files generalizing t with
  | nil => exact ⟨.nil t, Or.inl ⟨rfl, rfl⟩⟩
  | cons file rest ih =>
    obtain ⟨path, v⟩ := file
    rw [writeFiles]
    cases hwrite : t.write path (v.pretty ++ "\n").toUTF8 with
    | error fault =>
      have hcannot : ¬ isWritable t (path, v) = true := fun hcan => by
        obtain ⟨t', ht'⟩ := (FileTree.exists_write_iff (v.pretty ++ "\n").toUTF8).2 hcan
        rw [hwrite] at ht'
        cases ht'
      rw [List.takeWhile_cons_of_neg hcannot]
      exact ⟨.nil t, Or.inr ⟨path, v, rest, fault, rfl, hwrite, rfl⟩⟩
    | ok t' =>
      have hcan : isWritable t (path, v) = true := (FileTree.exists_write_iff _).1 ⟨t', hwrite⟩
      have hsame : isWritable t' = isWritable t :=
        funext fun file => (FileTree.found_write hwrite).1.canWrite_eq file.1
      obtain ⟨hwritten, hend⟩ := ih t'
      rw [hsame] at hwritten hend
      rw [List.takeWhile_cons_of_pos hcan]
      refine ⟨.cons hwrite hwritten, ?_⟩
      rcases hend with ⟨hall, hnone⟩ | ⟨path', v', rest', fault, hsplit, hfault, hsome⟩
      · exact Or.inl ⟨congrArg _ hall, hnone⟩
      · exact Or.inr ⟨path', v', rest', fault, congrArg _ hsplit, hfault, hsome⟩

/-- What is left where files have been written: each of them, unless a later one leads to the same place, and anywhere
else what was there before. -/
structure Leaves (t : FileTree) (written : List (String × Json)) (t' : FileTree) : Prop where
  reads : ∀ before path v after, written = before ++ (path, v) :: after →
    (∀ file ∈ after, t.resolve file.1 ≠ t.resolve path) → t'.readText path = .ok (fileText v)
  keeps : ∀ path s, (∀ file ∈ written, t.resolve file.1 ≠ t.resolve path) →
    (t'.readText path = .ok s ↔ t.readText path = .ok s)

theorem leaves_of_written {t t' : FileTree} {written : List (String × Json)}
    (h : t.Written (written.map fileBytes) t') : Leaves t written t' := by
  refine ⟨?_, fun path s hother => h.readText_iff (List.forall_mem_map.2 hother)⟩
  rintro before path v after rfl hother
  rw [List.map_append, List.map_cons] at h
  exact h.readText_of_split (List.forall_mem_map.2 hother)

section Boards

variable {t : FileTree} {batch : Batch} {folder : String}

theorem writeBatch_of_none (h : (writeFiles t (batch.files folder)).2 = none) :
    writeBatch t batch folder =
      Outcome.ofError? [] batch.failureLines (writeFiles t (batch.files folder)).1 batch.error? := by
  unfold writeBatch
  split
  · next he =>
    rw [he] at h
    cases h
  · next he => rw [he]

theorem writeBatch_of_some {e : CommandError} (h : (writeFiles t (batch.files folder)).2 = some e) :
    writeBatch t batch folder =
      Outcome.ofError? [] [] (writeFiles t (batch.files folder)).1 (some e) := by
  unfold writeBatch
  split
  · next he =>
    rw [he] at h ⊢
    cases h
    rfl
  · next he =>
    rw [he] at h
    cases h

end Boards

/-- **What the files of a batch come to.** There is a file for each facet of each board whose facets can all be made,
written in order up to the first that cannot be. If all can, every failure is told and the first decides the exit
code; else only the path of that file is told. -/
theorem perform_make_writes [Calculator] {resolver : FileTree → Resolver} {t start : FileTree} {facets : List Facet}
    {names : List String} {folder : String} (h : t.createFolders folder = .ok start) :
    let r := resolver start
    let command depth := perform resolver depth t (.make facets names (some folder))
    ((∃ depth, (command depth).isSome) ↔ ∀ expanded, r.expandNames names = .ok expanded →
      ∀ name ∈ expanded, ∃ depth, Ends (r.resolve depth name).result) ∧
    ∀ depth outcome, command depth = some outcome →
      (∀ deeper ≥ depth, command deeper = some outcome) ∧
      ∃ report, reportOf? r depth names = some report ∧ r.Reports depth names report ∧
      let files := (batchOf r facets report).files folder
      let written := files.takeWhile (isWritable start)
      (∀ path v, (path, v) ∈ files ↔ ∃ b ∈ report.boards, (∀ facet ∈ facets, ∃ v, facetOf r b facet = .ok v) ∧
        ∃ facet ∈ facets, path = facetPath folder b.id facet.name ∧ facetOf r b facet = .ok v) ∧
      Leaves start written outcome.files ∧
      outcome.output = [] ∧
      (written = files ∧
          (∃ made failed, Accounts r facets report.boards made failed ∧
            let failures := report.failures ++ failed
            (outcome.code = 0 ↔ failures = []) ∧
            (∀ first rest, failures = first :: rest → outcome.code = if first.error.isInput then 2 else 3) ∧
            outcome.errors = failures.map (fun f => f.board ++ ": " ++ f.error.message) ++
              (failures.head?.map fun f =>
                "Error: " ++ (CommandError.failed failures.length f.error).message).toList) ∨
        ∃ path v rest fault, files = written ++ (path, v) :: rest ∧
          outcome.files.write path (fileText v).toUTF8 = .error fault ∧
          outcome.errors = ["Error: " ++ (CommandError.writing path fault).message] ∧ outcome.code = 3) := by
  intro r command
  have hcommand : ∀ depth, command depth =
      (reportOf? r depth names).map fun report => writeBatch start (batchOf r facets report) folder := fun depth => by
    change perform resolver depth t (.make facets names (some folder)) = _
    rw [perform, h]
    rfl
  simp only [hcommand, Option.isSome_map]
  refine ⟨exists_reportOf?_iff, fun depth outcome houtcome => ?_⟩
  obtain ⟨report, hreport, rfl⟩ := Option.map_eq_some_iff.1 houtcome
  have hresult := reportOf?_eq_some_iff.1 hreport
  have hnodup := Resolver.nodup_ids_resolveAll hresult
  obtain ⟨hwritten, hend⟩ := writeFiles_cases start ((batchOf r facets report).files folder)
  refine ⟨fun deeper hdeeper => by rw [reportOf?_of_le hdeeper hreport]; rfl, report, hreport,
    Resolver.reports_resolveAll hresult, fun path v => mem_files_batchOf hnodup, ?_⟩
  rcases hend with ⟨hall, hnone⟩ | ⟨path, v, rest, fault, hsplit, hfault, hsome⟩
  · obtain ⟨failed, hfailures, haccounts⟩ := @accounts_batchOf r facets report hnodup
    rw [writeBatch_of_none hnone]
    obtain ⟨houtput, -, hfiles⟩ := ofError?_eq [] (batchOf r facets report).failureLines
      (writeFiles start ((batchOf r facets report).files folder)).1 (batchOf r facets report).error?
    refine ⟨hfiles.symm ▸ leaves_of_written hwritten, houtput, Or.inl ⟨hall, _, failed, haccounts, ?_⟩⟩
    rw [← hfailures]
    obtain ⟨hzero, hfirst⟩ := code_ofError? _ _ _ (batchOf r facets report)
    exact ⟨hzero, hfirst, errors_ofError? _ _ _⟩
  · rw [writeBatch_of_some hsome]
    exact ⟨leaves_of_written hwritten, rfl, Or.inr ⟨path, v, rest, fault, hsplit, hfault, rfl, rfl⟩⟩

/-! ### A board without a file name -/

section Slash

open scoped BoardAtlas.Expr

/-- Two boards, one of them with a slash in its id. -/
def slashStore : Store where
  manifests := [((.board, "a"), .obj [("build", .obj [("variant", .str "no/such")])]),
    ((.board, "b"), .obj [("build", .obj [("variant", .str "b")])])]

/-- A resolver over these boards alone. -/
def slashResolver : Resolver := ⟨slashStore.library {}, ⟨[], .empty, []⟩, false⟩

/-- The file of the other board. -/
def factsText : String := "\x7b\n  \"board\": \"b\",\n  \"sections\": [],\n  \"pins\": null\n\x7d\n"

/-- An empty folder for files. -/
def outTree : FileTree := { root := .folder [("out", .folder [])] }

theorem createFolders_outTree : FileTree.createFolders {} "out" = .ok outTree := by
  have hfault : pathFault? "out" = none := by decide
  have hstart : FileTree.start {} "out" = [] := ite_self []
  have hsteps : FileTree.steps "out" = ["out"] := by decide
  rw [FileTree.createFolders, hfault, hstart, hsteps]
  rfl

/-- What the command with the boards of `slashStore` writes before it ends. -/
theorem perform_make_writes_slashStore :
    FileTree.createFolders {} "out" = .ok outTree ∧
      ∃ outcome, perform (fun _ => slashResolver) 0 {} (.make [.variant] ["b", "gone", "a"] (some "out")) =
          some outcome ∧
        outcome.files.readText "out/b.variant.json" = .ok factsText ∧ outcome.code = 3 := by
  refine ⟨createFolders_outTree, ?_⟩
  obtain ⟨-, hall⟩ := @perform_make_writes _ (fun _ => slashResolver) {} outTree [.variant] ["b", "gone", "a"] "out"
    createFolders_outTree
  have hsome : (perform (fun _ => slashResolver) 0 {} (.make [.variant] ["b", "gone", "a"] (some "out"))).isSome := by
    decide +kernel
  obtain ⟨outcome, houtcome⟩ := Option.isSome_iff_exists.1 hsome
  obtain ⟨-, report, hreport, -, -, hleaves, -, hend⟩ := hall 0 outcome houtcome
  let filesOf (report : BatchReport) := (batchOf slashResolver [.variant] report).files "out"
  have hpaths : (reportOf? slashResolver 0 ["b", "gone", "a"]).map (fun report => (filesOf report).map Prod.fst) =
      some ["out/b.variant.json", "out/no/such.variant.json"] := by decide +kernel
  have hwritten : (reportOf? slashResolver 0 ["b", "gone", "a"]).map (fun report =>
      ((filesOf report).takeWhile (isWritable outTree)).map fun file => (file.1, fileText file.2)) =
        some [("out/b.variant.json", factsText)] := by decide +kernel
  rw [hreport] at hpaths hwritten
  obtain ⟨⟨path, v⟩, hsingle, hfile⟩ := List.map_eq_singleton_iff.1 (Option.some.inj hwritten)
  obtain ⟨rfl, htext⟩ := Prod.ext_iff.1 hfile
  refine ⟨outcome, houtcome, ?_, ?_⟩
  · exact (hleaves.reads [] _ v [] hsingle (by simp)).trans (congrArg Except.ok htext)
  · rcases hend with ⟨hall, -⟩ | ⟨_, _, _, _, -, -, -, hcode⟩
    · -- One file is written, but there are two.
      cases (Option.some.inj hpaths).symm.trans (congrArg (List.map Prod.fst) (hall.symm.trans hsingle))
    · exact hcode

/-- With the boards the other way round the second has no file, although its facet is made and could be written, and a
name without a board is not told. -/
theorem perform_make_blocked :
    FileTree.createFolders {} "out" = .ok outTree ∧
      ∃ report outcome, reportOf? slashResolver 0 ["gone", "a", "b"] = some report ∧
        perform (fun _ => slashResolver) 0 {} (.make [.variant] ["gone", "a", "b"] (some "out")) = some outcome ∧
        let batch := batchOf slashResolver [.variant] report
        (batch.files "out").map Prod.fst = ["out/no/such.variant.json", "out/b.variant.json"] ∧
          outTree.canWrite "out/b.variant.json" = true ∧
          outcome.files.isFile "out/b.variant.json" = false ∧
          batch.failures.map BoardFailure.board = ["gone"] ∧
          outcome.errors =
            ["Error: writing out/no/such.variant.json: No such file or directory (os error 2)"] := by
  have hperform : perform (fun _ => slashResolver) 0 {} (.make [.variant] ["gone", "a", "b"] (some "out")) =
      writeBoards slashResolver 0 outTree [.variant] ["gone", "a", "b"] "out" := by
    rw [perform, createFolders_outTree]
  refine ⟨createFolders_outTree, _, _, rfl, hperform.trans rfl, ?_⟩
  decide +kernel

end Slash

end BoardAtlas.Command
