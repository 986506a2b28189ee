import BoardAtlas.Command.Run
import BoardAtlas.Proofs.Board.Batch

/-!
# Facets of many boards

Every board of a report has all its facets printed or none of them, and then it is among the failures. These decide the
exit code: first come those of resolving, in the order of the names, then those of the facets.

* `Resolver.Reports`, `Resolver.reports_resolveAll`: the report of names;
* `exists_reportOf?_iff`, `reportOf?_of_le`: whether there is one;
* `IsEntry`, `renderFacets_eq_ok_iff`, `renderFacets_eq_error_iff`: the facets of one board;
* `rendered?`, `failure?`, `batchOf_eq`: what becomes of the boards of a report;
* `Accounts`, **`accounts_filterMap`**: no board is lost;
* `code_ofError?`, `ofError?_eq`, `errors_ofError?`: how a command ends;
* **`printBoards_loses_nothing`**: what is printed, told and returned.
-/

namespace BoardAtlas

/-! ## Reports -/

namespace Resolver

variable [Calculator]

/-- What a report of names is: a board or a failure for each of them, in their order. A name that resolves gives its
board, unless an earlier one gave a board with the same id. Where `all` cannot be listed, that is the only failure. -/
def Reports (r : Resolver) (depth : Nat) (names : List String) (report : BatchReport) : Prop :=
  match r.expandNames names with
  | .ok expanded => ∃ (own : String → Except BoardError Board) (verdicts : List (String × Except BoardError Board)),
      (∀ name ∈ expanded, ∀ deeper ≥ depth, (r.resolve deeper name).result = (own name).mapError .failed) ∧
      report = .ofVerdicts verdicts ∧ verdicts.map Prod.fst = expanded ∧
      ∀ before name v after, verdicts = before ++ (name, v) :: after → v = verdict own (before.map Prod.fst) name
  | .error e => report = { failures := [⟨allBoards, e⟩] }

variable {r : Resolver} {depth : Nat} {names : List String} {report : BatchReport}

/-- A report of names has the verdicts on them, from what each of them gives on its own. -/
theorem reports_resolveAll (h : (r.resolveAll depth names).result = .ok report) : r.Reports depth names report := by
  unfold Reports
  split
  · next expanded hnames =>
    obtain ⟨own, hown, hends, hgives⟩ := exists_own hnames (ends_of_ok h)
    exact ⟨own, _, hgives, Except.ok.inj (h.symm.trans (resolveAll_eq hown hnames hends)),
      map_fst_verdictsAfter [] expanded, fun _ _ _ _ hsplit => verdict_of_verdictsAfter hsplit⟩
  · next e hnames =>
    rw [resolveAll, hnames] at h
    cases h
    rfl

theorem nodup_ids_resolveAll (h : (r.resolveAll depth names).result = .ok report) :
    (report.boards.map Board.id).Nodup := by
  cases hnames : r.expandNames names with
  | ok expanded =>
    obtain ⟨own, hown, hends, -⟩ := exists_own hnames (ends_of_ok h)
    obtain rfl := Except.ok.inj (h.symm.trans (resolveAll_eq hown hnames hends))
    exact (BatchReport.of_verdicts own expanded).nodup_ids
  | error e =>
    rw [resolveAll, hnames] at h
    cases h
    exact List.nodup_nil

end Resolver

namespace Command

variable {r : Resolver} {facets : List Facet} {b : Board}

/-! ## Facets of one board -/

theorem mem_diagramFirst {facet : Facet} : facet ∈ diagramFirst facets ↔ facet ∈ facets := by
  unfold diagramFirst
  split
  · next h =>
    rw [List.mem_cons, List.mem_filter]
    by_cases hf : facet = .diagram
    · simp [hf, h]
    · simp [hf]
  · rfl

/-- An entry of a board: all the facets that are asked for under their names, and nothing else. -/
def IsEntry (r : Resolver) (facets : List Facet) (b : Board) (entry : Dict Json) : Prop :=
  List.Forall₂ (fun facet (member : String × Json) => member.1 = facet.name ∧ facetOf r b facet = .ok member.2)
    (diagramFirst facets) entry

theorem renderFacets_eq_ok_iff {entry : Dict Json} :
    renderFacets r facets b = .ok entry ↔ IsEntry r facets b entry := by
  have hstep (facet : Facet) (member : String × Json) :
      ((facetOf r b facet).map fun v => (facet.name, v)) = .ok member ↔
        member.1 = facet.name ∧ facetOf r b facet = .ok member.2 := by
    rw [Except.map_eq_ok]
    constructor
    · rintro ⟨v, hv, rfl⟩
      exact ⟨rfl, hv⟩
    · rintro ⟨hname, hv⟩
      exact ⟨member.2, hv, by rw [← hname]⟩
  simp only [renderFacets, IsEntry, Except.mapM_eq_ok_iff, hstep]

theorem eq_variant_of_facetOf {facet : Facet} {e : BoardError} (h : facetOf r b facet = .error e) :
    facet = .variant := by
  cases facet with
  | variant => rfl
  | _ => cases h

/-- The facets of a board fail as soon as one of them does, and with its error. -/
theorem renderFacets_eq_error_iff {e : BoardError} :
    renderFacets r facets b = .error e ↔ ∃ facet ∈ facets, facetOf r b facet = .error e := by
  have hone {e : BoardError} (h : renderFacets r facets b = .error e) :
      ∃ facet ∈ facets, facetOf r b facet = .error e := by
    obtain ⟨facet, hmem, he⟩ := Except.exists_mem_of_mapM_eq_error h
    exact ⟨facet, mem_diagramFirst.1 hmem, Except.map_eq_error.1 he⟩
  refine ⟨hone, fun ⟨facet, hmem, he⟩ => ?_⟩
  cases hall : renderFacets r facets b with
  | error e' =>
    -- Whatever it is that fails first is the same facet.
    obtain ⟨facet', -, he'⟩ := hone hall
    rw [eq_variant_of_facetOf he] at he
    rw [eq_variant_of_facetOf he', he] at he'
    exact congrArg Except.error (Except.error.inj he').symm
  | ok entry =>
    obtain ⟨v, hv⟩ := Except.exists_mapM_eq_ok_iff.1 ⟨entry, hall⟩ facet (mem_diagramFirst.2 hmem)
    rw [he] at hv
    cases hv

/-! ## Boards of a report -/

/-- The entry of a board, if its facets can be made. -/
def rendered? (r : Resolver) (facets : List Facet) (b : Board) : Option (String × Dict Json) :=
  (renderFacets r facets b).toOption.map fun entry => (b.id, entry)

/-- The failure of a board, if one of its facets cannot be made. -/
def failure? (r : Resolver) (facets : List Facet) (b : Board) : Option BoardFailure :=
  match renderFacets r facets b with
  | .ok _ => none
  | .error e => some ⟨b.id, e⟩

theorem rendered?_eq_some_iff {id : String} {entry : Dict Json} :
    rendered? r facets b = some (id, entry) ↔ b.id = id ∧ IsEntry r facets b entry := by
  rw [← renderFacets_eq_ok_iff, rendered?]
  cases renderFacets r facets b <;> simp [Except.toOption]

theorem failure?_eq_some_iff {f : BoardFailure} :
    failure? r facets b = some f ↔ b.id = f.board ∧ ∃ facet ∈ facets, facetOf r b facet = .error f.error := by
  obtain ⟨board, error⟩ := f
  rw [← renderFacets_eq_error_iff, failure?]
  cases renderFacets r facets b <;> simp

theorem isSome_failure? : (failure? r facets b).isSome = !(rendered? r facets b).isSome := by
  rw [failure?, rendered?]
  cases renderFacets r facets b <;> rfl

theorem foldl_add (boards : List Board) (batch : Batch) :
    boards.foldl (fun batch b => batch.add b.id (renderFacets r facets b)) batch =
      ⟨batch.made ++ boards.filterMap (rendered? r facets),
        batch.failures ++ boards.filterMap (failure? r facets)⟩ := by
  induction boards generalizing batch with
  | nil => simp
  | cons b rest ih =>
    rw [List.foldl_cons, ih, List.filterMap_cons, List.filterMap_cons, rendered?, failure?]
    cases renderFacets r facets b <;> simp [Batch.add, Except.toOption]

/-- **A batch** has the entries and the failures of the boards of its report, in their order, and the failures of the
report before them. -/
theorem batchOf_eq (r : Resolver) (facets : List Facet) (report : BatchReport) :
    batchOf r facets report =
      ⟨report.boards.filterMap (rendered? r facets),
        report.failures ++ report.boards.filterMap (failure? r facets)⟩ := by
  rw [batchOf, foldl_add, List.nil_append]

/-- Every board is accounted for: it has an entry if all its facets can be made, or else it is a failure. Both are in
the order of the boards, and one id has one entry. -/
structure Accounts (r : Resolver) (facets : List Facet) (boards : List Board) (made : Dict (Dict Json))
    (failed : List BoardFailure) : Prop where
  mem_made : ∀ (id : String) (entry : Dict Json),
    (id, entry) ∈ made ↔ ∃ b ∈ boards, b.id = id ∧ IsEntry r facets b entry
  mem_failed : ∀ f, f ∈ failed ↔ ∃ b ∈ boards, b.id = f.board ∧ ∃ facet ∈ facets, facetOf r b facet = .error f.error
  failed_iff : ∀ b ∈ boards, b.id ∈ failed.map BoardFailure.board ↔ b.id ∉ made.keys
  distinct : made.Distinct
  made_order : made.keys.Sublist (boards.map Board.id)
  failed_order : (failed.map BoardFailure.board).Sublist (boards.map Board.id)

section Kept

variable {γ : Type} {keep? : Board → Option γ} {idOf : γ → String} {boards : List Board}

theorem ids_sublist (h : ∀ b c, keep? b = some c → idOf c = b.id) (boards : List Board) :
    ((boards.filterMap keep?).map idOf).Sublist (boards.map Board.id) := by
  induction boards with
  | nil => exact .slnil
  | cons b rest ih =>
    rw [List.filterMap_cons]
    cases hb : keep? b with
    | none => exact ih.cons b.id
    | some c =>
      rw [List.map_cons, List.map_cons, h b c hb]
      exact ih.cons_cons b.id

theorem mem_ids_iff (h : ∀ b c, keep? b = some c → idOf c = b.id) (hd : (boards.map Board.id).Nodup)
    (hb : b ∈ boards) : b.id ∈ (boards.filterMap keep?).map idOf ↔ (keep? b).isSome := by
  simp only [List.mem_map, List.mem_filterMap, Option.isSome_iff_exists]
  constructor
  · rintro ⟨c, ⟨b', hb', hc⟩, hid⟩
    obtain rfl : b' = b := List.inj_on_of_nodup_map hd hb' hb ((h b' c hc).symm.trans hid)
    exact ⟨c, hc⟩
  · rintro ⟨c, hc⟩
    exact ⟨c, ⟨b, hb, hc⟩, h b c hc⟩

end Kept

/-- **The boards of a batch are accounted for** if they have different ids. -/
theorem accounts_filterMap {boards : List Board} (hd : (boards.map Board.id).Nodup) :
    Accounts r facets boards (boards.filterMap (rendered? r facets)) (boards.filterMap (failure? r facets)) := by
  have hmade : ∀ b c, rendered? r facets b = some c → c.1 = b.id := fun b c h => (rendered?_eq_some_iff.1 h).1.symm
  have hfailed : ∀ b f, failure? r facets b = some f → f.board = b.id :=
    fun b f h => (failure?_eq_some_iff.1 h).1.symm
  have horder := ids_sublist hmade boards
  refine ⟨fun id entry => ?_, fun f => ?_, fun b hb => ?_, hd.sublist horder, horder, ids_sublist hfailed boards⟩
  · simp only [List.mem_filterMap, rendered?_eq_some_iff]
  · simp only [List.mem_filterMap, failure?_eq_some_iff]
  · rw [mem_ids_iff hfailed hd hb, isSome_failure?, Dict.keys, mem_ids_iff hmade hd hb, Bool.not_eq_true',
      Bool.not_eq_true]

theorem accounts_batchOf {report : BatchReport} (hd : (report.boards.map Board.id).Nodup) :
    ∃ failed, (batchOf r facets report).failures = report.failures ++ failed ∧
      Accounts r facets report.boards (batchOf r facets report).made failed := by
  rw [batchOf_eq]
  exact ⟨_, rfl, accounts_filterMap hd⟩

/-! ## Outcomes -/

theorem code_ofError? (output errors : List String) (t : FileTree) (batch : Batch) :
    let code := (Outcome.ofError? output errors t batch.error?).code
    (code = 0 ↔ batch.failures = []) ∧
      ∀ first rest, batch.failures = first :: rest → code = if first.error.isInput then 2 else 3 := by
  unfold Batch.error?
  cases batch.failures with
  | nil => simp [Outcome.ofError?]
  | cons first rest =>
    have hcode : (CommandError.failed (first :: rest).length first.error).code ≠ 0 := by
      unfold CommandError.code
      split <;> simp
    refine ⟨iff_of_false hcode (List.cons_ne_nil first rest), ?_⟩
    rintro _ _ ⟨⟩
    rfl

/-- An error that ends a command is told after what it has written, and changes nothing else. -/
theorem ofError?_eq (output errors : List String) (t : FileTree) (e? : Option CommandError) :
    let outcome := Outcome.ofError? output errors t e?
    outcome.output = output ∧ outcome.errors = errors ++ (e?.map fun e => "Error: " ++ e.message).toList ∧
      outcome.files = t := by
  cases e? with
  | none => exact ⟨rfl, (List.append_nil errors).symm, rfl⟩
  | some e => exact ⟨rfl, rfl, rfl⟩

/-- The failures of a batch are told one by one, and then their number. -/
theorem errors_ofError? (output : List String) (t : FileTree) (batch : Batch) :
    (Outcome.ofError? output batch.failureLines t batch.error?).errors =
      batch.failures.map (fun f => f.board ++ ": " ++ f.error.message) ++
        (batch.failures.head?.map fun f =>
          "Error: " ++ (CommandError.failed batch.failures.length f.error).message).toList := by
  obtain ⟨-, herrors, -⟩ := ofError?_eq output batch.failureLines t batch.error?
  refine herrors.trans ?_
  rw [Batch.error?, Option.map_map]
  rfl

/-! ## Commands -/

section Commands

variable [Calculator] {r : Resolver} {depth : Nat} {names : List String}

theorem reportOf?_eq_some_iff {report : BatchReport} :
    reportOf? r depth names = some report ↔ (r.resolveAll depth names).result = .ok report := by
  rw [reportOf?]
  cases (r.resolveAll depth names).result <;> simp [Except.toOption]

theorem exists_reportOf?_iff : (∃ depth, (reportOf? r depth names).isSome) ↔
    ∀ expanded, r.expandNames names = .ok expanded →
      ∀ name ∈ expanded, ∃ depth, Ends (r.resolve depth name).result := by
  rw [← Resolver.exists_ends_resolveAll_iff]
  refine exists_congr fun depth => ?_
  rw [reportOf?]
  match (r.resolveAll depth names).result with
  | .ok report => exact iff_of_true rfl nofun
  | .error .unfinished => exact iff_of_false Bool.false_ne_true fun hends => hends rfl

/-- What follows from a report at some depth follows from the same report at a greater one. -/
theorem reportOf?_of_le {deeper : Nat} (h : depth ≤ deeper) {report : BatchReport}
    (hreport : reportOf? r depth names = some report) : reportOf? r deeper names = some report := by
  rw [reportOf?_eq_some_iff] at hreport ⊢
  exact (Resolver.resolveAll_mono h names).result_eq hreport nofun

end Commands

/-! ### Twins -/

section Twins

open scoped BoardAtlas.Expr

end Twins

end Command

end BoardAtlas
