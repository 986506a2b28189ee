import BoardAtlas.Proofs.Library.TableFiles
import BoardAtlas.Proofs.Manifest.Reading
import BoardAtlas.Proofs.Writes

/-!
# Tables over their files

A table that is not remembered is read from those of its files that are there, the overriding ones last. So each key
has its whole value from the first file that has the key, while keys come in the order in which the files are read.
The first file that cannot be read, in that order, decides how a table fails, and then nothing is remembered.

* `readEntries_eq_ok_iff`, `readEntries_eq_error_iff`: one file;
* `mergeTables_eq_ok_iff`, `fault?_mergeTables`: one file after the other;
* `layers_of_mergeTables`, `offender_of_mergeTables`: files as layers, and the file that decides a failure;
* **`table_layers`**: a table that is not remembered.
-/

namespace BoardAtlas.Store

variable {t : FileTree} {kind : TableKind}

/-! ## One file -/

theorem readEntries_eq_ok_iff {path : String} {entries : Dict Value} :
    readEntries t kind path = .ok entries ↔ readValue t path = .ok (.obj entries) := by
  rw [readEntries, Except.bind_eq_ok]
  constructor
  · rintro ⟨v, hv, h⟩
    cases v with
    | obj fields =>
      cases h
      exact hv
    | _ => cases h
  · exact fun h => ⟨.obj entries, h, rfl⟩

/-- A file is at fault if it cannot be read or holds something else than an object. -/
theorem readEntries_eq_error_iff {path : String} {e : ManifestError} :
    readEntries t kind path = .error e ↔
      readValue t path = .error e ∨
        ∃ v, readValue t path = .ok v ∧ v.kind ≠ .object ∧ e = .tableNotObject kind path := by
  rw [readEntries]
  cases hv : readValue t path with
  | error e' =>
    change Except.error e' = Except.error e ↔ _
    simp
  | ok v =>
    cases v with
    | obj fields =>
      change Except.ok fields = Except.error e ↔ _
      simp [Value.kind]
    | _ =>
      change Except.error (ManifestError.tableNotObject kind path) = Except.error e ↔ _
      simp [Value.kind, eq_comm]

/-! ## One file after the other -/

/-- **Files that are merged** are written one over the other, each whole. -/
theorem mergeTables_eq_ok_iff {files : List String} {merged d : Dict Value} :
    mergeTables t kind merged files = .ok d ↔
      ∃ layers, List.Forall₂ (fun path entries => readEntries t kind path = .ok entries) files layers ∧
        d = layers.foldl Dict.extend merged := by
  induction files generalizing merged with
  | nil =>
    constructor
    · rintro ⟨⟩
      exact ⟨[], .nil, rfl⟩
    · rintro ⟨_, ⟨⟩, rfl⟩
      rfl
  | cons path rest ih =>
    rw [mergeTables, Except.bind_eq_ok]
    constructor
    · rintro ⟨entries, hentries, h⟩
      obtain ⟨layers, hlayers, rfl⟩ := ih.1 h
      exact ⟨entries :: layers, .cons hentries hlayers, rfl⟩
    · rintro ⟨_, ⟨⟩, rfl⟩
      exact ⟨_, ‹_›, ih.2 ⟨_, ‹_›, rfl⟩⟩

theorem fault?_mergeTables (merged : Dict Value) (files : List String) :
    Except.fault? (mergeTables t kind merged files) = Except.firstFault? (readEntries t kind) files := by
  induction files generalizing merged with
  | nil => rfl
  | cons path rest ih =>
    rw [mergeTables, Except.firstFault?_cons]
    exact Except.fault?_bind fun entries => ih (merged.extend entries)

theorem distinct_layers {files : List String} {layers : List (Dict Value)}
    (h : List.Forall₂ (fun path entries => readValue t path = .ok (.obj entries)) files layers) :
    ∀ entries ∈ layers, Dict.Distinct entries := by
  induction h with
  | nil => simp
  | cons hread _ ih => exact List.forall_mem_cons.2 ⟨(Value.distinct_obj_iff.1 (distinct_of_readValue hread)).1, ih⟩

section Layers

variable {files : List String}

theorem exists_mergeTables_eq_ok_iff : (∃ d, mergeTables t kind [] files.reverse = .ok d) ↔
    ∀ path ∈ files, ∃ entries, readValue t path = .ok (.obj entries) := by
  rw [← Except.fault?_eq_none_iff, fault?_mergeTables, Except.firstFault?_eq_none_iff]
  simp only [List.mem_reverse, readEntries_eq_ok_iff]

/-- Files in the order of their priority are the layers of what they are merged to. -/
theorem layers_of_mergeTables {d : Dict Value} (h : mergeTables t kind [] files.reverse = .ok d) :
    ∃ layers, List.Forall₂ (fun path entries => readValue t path = .ok (.obj entries)) files layers ∧
      d.keys = Listing.firsts (layers.reverse.flatMap Dict.keys) ∧ Dict.Layered layers d := by
  rw [mergeTables_eq_ok_iff] at h
  obtain ⟨layers, hlayers, rfl⟩ := h
  simp only [readEntries_eq_ok_iff] at hlayers
  rw [Dict.foldl_extend]
  refine ⟨layers.reverse, ?_, ?_, Dict.layered_ofList_flatten (distinct_layers hlayers)⟩
  · rw [← List.forall₂_reverse_iff, List.reverse_reverse]
    exact hlayers
  · rw [List.reverse_reverse]
    exact (Dict.keys_ofList _).trans (congrArg Listing.firsts List.map_flatten)

/-- Of the files at fault the one of the lowest priority is met. -/
theorem offender_of_mergeTables {e : ManifestError} (h : mergeTables t kind [] files.reverse = .error e) :
    ∃ before path after, files = before ++ path :: after ∧
      (readValue t path = .error e ∨
        ∃ v, readValue t path = .ok v ∧ v.kind ≠ .object ∧ e = .tableNotObject kind path) ∧
      ∀ p ∈ after, ∃ entries, readValue t p = .ok (.obj entries) := by
  rw [← Except.fault?_eq_some_iff, fault?_mergeTables, Except.firstFault?_eq_some_iff] at h
  obtain ⟨before, path, after, hfiles, hbefore, hpath⟩ := h
  refine ⟨after.reverse, path, before.reverse, ?_, readEntries_eq_error_iff.1 hpath, ?_⟩
  · rw [← List.reverse_reverse files, hfiles]
    simp
  · simpa only [List.mem_reverse, readEntries_eq_ok_iff] using hbefore

end Layers

/-! ## A table -/

variable {s : Store}

theorem table_of_not_remembered (h : s.tables kind = none) :
    (s.table t kind).1 = mergeTables t kind [] ((s.tableFiles kind).filter t.isFile).reverse := by
  rw [table_eq, h, readTable, List.filter_reverse]

theorem table_of_error {e : ManifestError} (h : (s.table t kind).1 = .error e) : (s.table t kind).2 = s := by
  rw [← table?_library] at h
  rw [table, run, Library.table, h]
  rfl

/-- **A table is merged from its files.** It can be read exactly when each of its files that is there holds an object,
and then has under each key the value of the first file with the key. Else the last file at fault decides, and nothing
is remembered. -/
theorem table_layers (s : Store) (t : FileTree) (kind : TableKind) (h : s.tables kind = none) :
    let files := (s.tableFiles kind).filter t.isFile
    ((∃ d, (s.table t kind).1 = .ok d) ↔ ∀ path ∈ files, ∃ entries, readValue t path = .ok (.obj entries)) ∧
    (∀ d, (s.table t kind).1 = .ok d →
      (s.table t kind).2.tables kind = some d ∧
      ∃ layers, List.Forall₂ (fun path entries => readValue t path = .ok (.obj entries)) files layers ∧
        d.keys = Listing.firsts (layers.reverse.flatMap Dict.keys) ∧ Dict.Layered layers d) ∧
    ∀ e, (s.table t kind).1 = .error e →
      (s.table t kind).2 = s ∧
      ∃ before path after, files = before ++ path :: after ∧
        (readValue t path = .error e ∨
          ∃ v, readValue t path = .ok v ∧ v.kind ≠ .object ∧ e = .tableNotObject kind path) ∧
        ∀ p ∈ after, ∃ entries, readValue t p = .ok (.obj entries) := by
  intro files
  have htable : (s.table t kind).1 = mergeTables t kind [] files.reverse := table_of_not_remembered h
  refine ⟨?_, fun d hd => ⟨?_, ?_⟩, fun e he => ⟨table_of_error he, ?_⟩⟩
  · rw [htable]
    exact exists_mergeTables_eq_ok_iff
  · have hafter := tables_after_table s t kind kind
    rwa [if_pos rfl, hd] at hafter
  · rw [htable] at hd
    exact layers_of_mergeTables hd
  · rw [htable] at he
    exact offender_of_mergeTables he

/-- Three roots; the second one has no presets, and both others have some for a pin. -/
def threeRoots : FileTree where
  root := .folder
    [("a", .folder [("presets.json", .file "\x7b\"pad\":1,\"pin\":\x7b\"w\":2\x7d\x7d".toUTF8)]),
      ("b", .folder []),
      ("c", .folder [("presets.json", .file "\x7b\"via\":3,\"pin\":\x7b\"h\":4\x7d\x7d".toUTF8)])]

theorem table_layers_threeRoots :
    (ofRoots ["a", "b", "c"]).tables .presets = none ∧
      ∃ d, ((ofRoots ["a", "b", "c"]).table threeRoots .presets).1 = .ok d ∧ d.keys = ["via", "pin", "pad"] ∧
        (d.get? "pin").map Value.compact = some "\x7b\"w\":2\x7d" := by
  obtain ⟨hok, hlayers, -⟩ := table_layers (ofRoots ["a", "b", "c"]) threeRoots .presets rfl
  have hfiles : ((ofRoots ["a", "b", "c"]).tableFiles .presets).filter threeRoots.isFile =
      ["a/presets.json", "c/presets.json"] := by decide +kernel
  rw [hfiles] at hok hlayers
  have hread (path : String) (ks : List String)
      (h : (readValue threeRoots path).toOption.bind (fun v => v.members?.map Dict.keys) = some ks) :
      ∃ entries, readValue threeRoots path = .ok (.obj entries) ∧ Dict.keys entries = ks := by
    obtain ⟨v, hv, h⟩ := Option.bind_eq_some_iff.1 h
    obtain ⟨entries, hentries, hkeys⟩ := Option.map_eq_some_iff.1 h
    cases v with
    | obj _ =>
      cases hentries
      exact ⟨entries, Except.toOption_eq_some.1 hv, hkeys⟩
    | _ => cases hentries
  obtain ⟨above, habove, hkeys⟩ := hread "a/presets.json" ["pad", "pin"] (by decide +kernel)
  obtain ⟨below, hbelow, hkeys'⟩ := hread "c/presets.json" ["via", "pin"] (by decide +kernel)
  have hpin : ((readValue threeRoots "a/presets.json").toOption.bind (·.get? "pin")).map Value.compact =
      some "\x7b\"w\":2\x7d" := by decide +kernel
  rw [habove] at hpin
  obtain ⟨w, hw, hcompact⟩ := Option.map_eq_some_iff.1 hpin
  have hget : Dict.get? above "pin" = some w := hw
  obtain ⟨d, hd⟩ := hok.2 (by simp [habove, hbelow])
  obtain ⟨-, layers, hall, hdkeys, hlayered⟩ := hlayers d hd
  obtain rfl : layers = [above, below] := by
    cases hall with
    | cons ha hrest =>
      cases hrest with
      | cons hc hnil =>
        cases hnil
        rw [habove] at ha
        rw [hbelow] at hc
        cases ha
        cases hc
        rfl
  refine ⟨rfl, d, hd, ?_, ?_⟩
  · rw [hdkeys]
    simp only [List.reverse_cons, List.reverse_nil, List.nil_append, List.cons_append, List.flatMap_cons,
      List.flatMap_nil, List.append_nil, hkeys, hkeys']
    rfl
  · rw [hlayered "pin", List.findSome?_cons, hget]
    exact congrArg some hcompact

end BoardAtlas.Store
