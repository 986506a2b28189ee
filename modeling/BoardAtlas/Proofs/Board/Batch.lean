import BoardAtlas.Formula.Reader
import BoardAtlas.Proofs.Board.Depth
import BoardAtlas.Proofs.Board.Reading
import BoardAtlas.Proofs.Shape.Turns
import Mathlib.Data.List.Nodup

/-!
# Batches of boards

Of every name a batch makes what the name gives on its own, unless an earlier name gave a board with the same id. It
ends where each of the names does. A report need not remember more than its boards: the manifest of the board with an id
is the first name that gave the id.

* `givesId`, `verdict`, `verdictsAfter`: what a batch makes of names, from what each of them gives on its own;
* `BatchReport.ofVerdicts`, `BatchReport.Of`: the report of verdicts, and what a report of names is;
* `BatchReport.Of.put`, `BatchReport.Of.add_eq`, `BatchReport.Of.foldl_add`: one name more, and many;
* `BatchReport.Of.perm`: names in another order;
* `Resolver.exists_own`, **`Resolver.resolveAll_eq`**: a batch that ends, from what its names give;
* **`Store.resolveAll_eq`**: a batch as one name after the other, each on the store that the one before it left;
* **`Store.resolveAll_isolates`**: each name on its own, and the ids of the boards.
-/

namespace BoardAtlas

/-! ## Verdicts -/

section Verdicts

variable (own : String → Except BoardError Board)

/-- A name gives a board with an id. -/
def givesId (id name : String) : Bool :=
  match own name with
  | .ok b => b.id == id
  | .error _ => false

/-- What a batch makes of a name after other names: what it gives on its own, unless one of them, of which
the first is named, gave a board with the same id. -/
def verdict (before : List String) (name : String) : Except BoardError Board :=
  match own name with
  | .error e => .error e
  | .ok b =>
    match before.find? (givesId own b.id) with
    | some first => .error (.duplicateBoard b.id first name)
    | none => .ok b

/-- The verdicts on names after other names. -/
def verdictsAfter : List String → List String → List (String × Except BoardError Board)
  | _, [] => []
  | before, name :: rest => (name, verdict own before name) :: verdictsAfter (before ++ [name]) rest

variable {own} {before : List String} {name : String}

theorem givesId_of_error {e : BoardError} (h : own name = .error e) (id : String) :
    givesId own id name = false := by
  simp only [givesId, h]

theorem givesId_of_ok {b : Board} (h : own name = .ok b) (id : String) :
    givesId own id name = (b.id == id) := by
  simp only [givesId, h]

theorem exists_of_givesId {id : String} (h : givesId own id name = true) :
    ∃ b, own name = .ok b ∧ b.id = id := by
  cases hv : own name with
  | error e =>
    rw [givesId_of_error hv] at h
    cases h
  | ok b =>
    rw [givesId_of_ok hv] at h
    exact ⟨b, rfl, by simpa using h⟩

theorem verdict_of_error {e : BoardError} (h : own name = .error e) :
    verdict own before name = .error e := by
  rw [verdict, h]

theorem verdict_of_new {b : Board} (h : own name = .ok b)
    (hb : before.find? (givesId own b.id) = none) : verdict own before name = .ok b := by
  simp only [verdict, h, hb]

theorem verdict_of_first {b : Board} {first : String} (h : own name = .ok b)
    (hb : before.find? (givesId own b.id) = some first) :
    verdict own before name = .error (.duplicateBoard b.id first name) := by
  simp only [verdict, h, hb]

theorem find?_givesId_concat (id : String) : (before ++ [name]).find? (givesId own id) =
    (before.find? (givesId own id)).or (if givesId own id name then some name else none) := by
  rw [List.find?_append]
  by_cases h : givesId own id name <;> simp [h]

theorem map_fst_verdictsAfter (before names : List String) :
    (verdictsAfter own before names).map Prod.fst = names := by
  induction names generalizing before with
  | nil => rfl
  | cons name rest ih => rw [verdictsAfter, List.map_cons, ih]

theorem verdict_of_verdictsAfter {names : List String}
    {vs vs' : List (String × Except BoardError Board)}
    {v : Except BoardError Board} (h : verdictsAfter own before names = vs ++ (name, v) :: vs') :
    v = verdict own (before ++ vs.map Prod.fst) name := by
  induction names generalizing before vs with
  | nil => exact absurd h (by simp [verdictsAfter])
  | cons first rest ih =>
    rw [verdictsAfter] at h
    cases vs with
    | nil =>
      obtain ⟨hv, -⟩ := List.cons.inj h
      obtain ⟨rfl, rfl⟩ := Prod.mk.inj hv
      rw [List.map_nil, List.append_nil]
    | cons w vs =>
      obtain ⟨rfl, hrest⟩ := List.cons.inj h
      rw [ih hrest, List.map_cons, List.append_assoc, List.singleton_append]

end Verdicts

/-! ## Reports -/

namespace BatchReport

/-- The report with the verdict on one more name. -/
def put (report : BatchReport) (name : String) : Except BoardError Board → BatchReport
  | .ok b => { report with boards := report.boards ++ [b] }
  | .error e => { report with failures := report.failures ++ [⟨name, e⟩] }

/-- The report of verdicts: boards and failures, both in the order of the names. -/
def ofVerdicts (vs : List (String × Except BoardError Board)) : BatchReport where
  boards := vs.filterMap fun v => v.2.toOption
  failures := vs.filterMap fun v =>
    match v.2 with
    | .ok _ => none
    | .error e => some ⟨v.1, e⟩

theorem ofVerdicts_concat (vs : List (String × Except BoardError Board)) (name : String)
    (v : Except BoardError Board) : ofVerdicts (vs ++ [(name, v)]) = (ofVerdicts vs).put name v := by
  cases v <;> simp [ofVerdicts, put, Except.toOption]

theorem length_put (report : BatchReport) (name : String) (v : Except BoardError Board) :
    (report.put name v).boards.length + (report.put name v).failures.length =
      report.boards.length + report.failures.length + 1 := by
  cases v <;> simp only [put, List.length_append, List.length_singleton] <;> omega

variable {own : String → Except BoardError Board} {before : List String} {report : BatchReport}

/-- The report of names: under an id it has the board of the first name that gave the id. -/
structure Of (own : String → Except BoardError Board) (names : List String) (report : BatchReport) :
    Prop where
  find?_id : ∀ id, (report.boards.find? fun b => b.id == id) =
    (names.find? (givesId own id)).bind fun name => (own name).toOption
  nodup_ids : (report.boards.map Board.id).Nodup
  length_eq : report.boards.length + report.failures.length = names.length

theorem of_nil : Of own [] (ofVerdicts []) := ⟨fun _ => rfl, List.nodup_nil, rfl⟩

/-- The verdict on the next name gives the report of one more name. -/
theorem Of.put (h : Of own before report) (name : String) :
    Of own (before ++ [name]) (report.put name (verdict own before name)) := by
  have hlength (v : Except BoardError Board) : (report.put name v).boards.length +
      (report.put name v).failures.length = (before ++ [name]).length := by
    rw [length_put, h.length_eq, List.length_append, List.length_singleton]
  cases hv : own name with
  | error e =>
    rw [verdict_of_error hv]
    refine ⟨fun id => ?_, h.nodup_ids, hlength _⟩
    rw [find?_givesId_concat, givesId_of_error hv, if_neg Bool.false_ne_true, Option.or_none]
    exact h.find?_id id
  | ok b =>
    cases hf : before.find? (givesId own b.id) with
    | some first =>
      have hsame (id : String) :
          (before ++ [name]).find? (givesId own id) = before.find? (givesId own id) := by
        rw [find?_givesId_concat, givesId_of_ok hv]
        by_cases hid : b.id = id
        · rw [← hid, hf, Option.some_or]
        · rw [if_neg (by simpa using hid), Option.or_none]
      rw [verdict_of_first hv hf]
      refine ⟨fun id => ?_, h.nodup_ids, hlength _⟩
      rw [hsame]
      exact h.find?_id id
    | none =>
      have hnew : (report.boards.find? fun b' => b'.id == b.id) = none := by
        rw [h.find?_id, hf, Option.bind_none]
      rw [verdict_of_new hv hf]
      refine ⟨fun id => ?_, ?_, hlength _⟩
      · simp only [BatchReport.put]
        rw [find?_givesId_concat, givesId_of_ok hv, List.find?_append, h.find?_id id]
        by_cases hid : b.id = id
        · rw [← hid, hf]
          simp [hv, Except.toOption]
        · simp [hid]
      · simp only [BatchReport.put, List.map_append, List.map_cons, List.map_nil]
        refine List.nodup_append.2 ⟨h.nodup_ids, List.nodup_singleton _, fun id hid id' hid' he => ?_⟩
        obtain ⟨b', hb', rfl⟩ := List.mem_map.1 hid
        rw [List.mem_singleton.1 hid'] at he
        exact List.find?_eq_none.1 hnew b' hb' (by simpa using he)

theorem Of.verdictsAfter {vs : List (String × Except BoardError Board)}
    (h : Of own before (ofVerdicts vs)) (names : List String) :
    Of own (before ++ names) (ofVerdicts (vs ++ BoardAtlas.verdictsAfter own before names)) := by
  induction names generalizing before vs with
  | nil => simpa [BoardAtlas.verdictsAfter] using h
  | cons name rest ih =>
    have hput : Of own (before ++ [name]) (ofVerdicts (vs ++ [(name, verdict own before name)])) := by
      rw [ofVerdicts_concat]
      exact h.put name
    have hrest := ih hput
    rw [List.append_assoc, List.append_assoc] at hrest
    exact hrest

/-- The board with the id of the next board has as manifest the first name that gave the id. -/
theorem Of.add_eq (hown : ∀ name b, own name = .ok b → b.manifest = name)
    (h : Of own before report) (name : String) :
    report.add name (own name) = report.put name (verdict own before name) := by
  cases hv : own name with
  | error e =>
    rw [verdict_of_error hv]
    rfl
  | ok b =>
    have hid := h.find?_id b.id
    rw [add]
    cases hf : before.find? (givesId own b.id) with
    | none =>
      rw [hf, Option.bind_none] at hid
      rw [verdict_of_new hv hf, hid]
      rfl
    | some first =>
      obtain ⟨b', hb', -⟩ := exists_of_givesId (List.find?_some hf)
      rw [hf, Option.bind_some, hb'] at hid
      rw [verdict_of_first hv hf, hid]
      simp only [Except.toOption, hown first b' hb']
      rfl

theorem Of.foldl_add (hown : ∀ name b, own name = .ok b → b.manifest = name)
    {vs : List (String × Except BoardError Board)} (h : Of own before (ofVerdicts vs))
    (names : List String) :
    names.foldl (fun report name => report.add name (own name)) (ofVerdicts vs) =
      ofVerdicts (vs ++ BoardAtlas.verdictsAfter own before names) := by
  induction names generalizing before vs with
  | nil => rw [BoardAtlas.verdictsAfter, List.append_nil, List.foldl_nil]
  | cons name rest ih =>
    have hput := h.put name
    rw [← ofVerdicts_concat] at hput
    rw [List.foldl_cons, h.add_eq hown, ← ofVerdicts_concat, ih hput, List.append_assoc]
    rfl

variable (own) in
theorem of_verdicts (names : List String) :
    Of own names (ofVerdicts (verdictsAfter own [] names)) :=
  of_nil.verdictsAfter names

theorem foldl_add_nil (hown : ∀ name b, own name = .ok b → b.manifest = name)
    (names : List String) :
    names.foldl (fun report name => report.add name (own name)) {} =
      ofVerdicts (verdictsAfter own [] names) :=
  of_nil.foldl_add hown names

theorem Of.mem_ids_iff (h : Of own before report) {id : String} :
    id ∈ report.boards.map Board.id ↔ ∃ name ∈ before, givesId own id name := by
  have hboards : id ∈ report.boards.map Board.id ↔
      (report.boards.find? fun b => b.id == id).isSome := by
    simp [List.find?_isSome]
  rw [hboards, h.find?_id]
  cases hf : before.find? (givesId own id) with
  | none => simpa using List.find?_eq_none.1 hf
  | some first =>
    have hgives := List.find?_some hf
    obtain ⟨b, hb, -⟩ := exists_of_givesId hgives
    rw [Option.bind_some, hb]
    exact iff_of_true rfl ⟨first, List.mem_of_find?_eq_some hf, hgives⟩

/-- In another order the names give the same ids and as many failures. -/
theorem Of.perm {names names' : List String} {report' : BatchReport} (h : Of own names report)
    (h' : Of own names' report') (hp : names'.Perm names) :
    (∀ id, id ∈ report'.boards.map Board.id ↔ id ∈ report.boards.map Board.id) ∧
      report'.failures.length = report.failures.length := by
  have hids (id : String) :
      id ∈ report'.boards.map Board.id ↔ id ∈ report.boards.map Board.id := by
    rw [h.mem_ids_iff, h'.mem_ids_iff]
    simp only [hp.mem_iff]
  have hboards := ((List.perm_ext_iff_of_nodup h'.nodup_ids h.nodup_ids).2 hids).length_eq
  rw [List.length_map, List.length_map] at hboards
  have hnames := hp.length_eq
  rw [← h.length_eq, ← h'.length_eq] at hnames
  exact ⟨hids, by omega⟩

end BatchReport

/-! ## Boards of a store -/

theorem Board.manifest_of_ofManifest {name : String} {manifest : Value} {titles : Dict Value}
    {b : Board} (h : ofManifest name manifest titles = .ok b) : b.manifest = name := by
  rw [ofManifest] at h
  obtain ⟨r, -, h⟩ := Except.bind_eq_ok.1 h
  obtain ⟨flash, -, h⟩ := Except.bind_eq_ok.1 h
  obtain ⟨pcb, -, h⟩ := Except.bind_eq_ok.1 h
  cases h
  rfl

namespace Resolver

variable [Calculator] {r : Resolver} {depth : Nat}

theorem manifest_of_resolve {name : String} {b : Board} (h : (r.resolve depth name).result = .ok b) :
    b.manifest = name := by
  rw [resolve, Loading.result_bind] at h
  obtain ⟨manifest, -, h⟩ := Except.bind_eq_ok.1 h
  rw [Loading.result_bind] at h
  obtain ⟨b', hb, h⟩ := Except.bind_eq_ok.1 h
  have hname : b'.manifest = name := Board.manifest_of_ofManifest (Except.mapError_eq_ok.1 hb)
  cases hp : b'.pcb with
  | none =>
    simp only [hp, Loading.result_pure] at h
    cases h
    exact hname
  | some p =>
    simp only [hp, Loading.result_bind] at h
    obtain ⟨p', -, h⟩ := Except.bind_eq_ok.1 h
    cases h
    exact hname

/-- What names give on their own at a depth. Of names that are unfinished there it says nothing but that they give no
board. -/
structure Gives (r : Resolver) (depth : Nat) (own : String → Except BoardError Board) : Prop where
  of_ends : ∀ name, Ends (r.resolve depth name).result → (r.resolve depth name).result = (own name).mapError .failed
  of_ok : ∀ name b, own name = .ok b → (r.resolve depth name).result = .ok b

theorem exists_gives (r : Resolver) (depth : Nat) : ∃ own, r.Gives depth own := by
  have hown (name : String) : ∃ v : Except BoardError Board,
      (Ends (r.resolve depth name).result → (r.resolve depth name).result = v.mapError .failed) ∧
        ∀ b, v = .ok b → (r.resolve depth name).result = .ok b := by
    by_cases h : Ends (r.resolve depth name).result
    · obtain ⟨v, hv⟩ := ends_iff.1 h
      refine ⟨v, fun _ => hv, ?_⟩
      rintro b rfl
      exact hv
    · exact ⟨.error (.duplicateBoard name name name), fun hends => absurd hends h, fun b hb => nomatch hb⟩
  choose own hends hok using hown
  exact ⟨own, hends, hok⟩

theorem Gives.manifest {own : String → Except BoardError Board} (h : r.Gives depth own) (name : String) (b : Board)
    (hb : own name = .ok b) : b.manifest = name :=
  manifest_of_resolve (h.of_ok name b hb)

/-- **A batch that ends** has the report of the verdicts on its names, from what each of them gives on its own. -/
theorem resolveAll_eq {own : String → Except BoardError Board} (hown : r.Gives depth own)
    {names expanded : List String} (h : r.expandNames names = .ok expanded)
    (hends : ∀ name ∈ expanded, Ends (r.resolve depth name).result) :
    (r.resolveAll depth names).result = .ok (.ofVerdicts (verdictsAfter own [] expanded)) := by
  rw [resolveAll, h, ← BatchReport.foldl_add_nil hown.manifest]
  exact result_resolveInto (fun name hname => hown.of_ends name (hends name hname)) {}

/-- Where a batch ends, so does each of its names, with the same at any greater depth. -/
theorem exists_own {names expanded : List String} (h : r.expandNames names = .ok expanded)
    (hall : Ends (r.resolveAll depth names).result) :
    ∃ own, r.Gives depth own ∧ (∀ name ∈ expanded, Ends (r.resolve depth name).result) ∧
      ∀ name ∈ expanded, ∀ deeper ≥ depth, (r.resolve deeper name).result = (own name).mapError .failed := by
  obtain ⟨own, hown⟩ := r.exists_gives depth
  have hends : ∀ name ∈ expanded, Ends (r.resolve depth name).result := by
    rw [resolveAll, h] at hall
    exact (ends_resolveInto_iff {}).1 hall
  refine ⟨own, hown, hends, fun name hname deeper hdeeper => ?_⟩
  exact (resolve_mono hdeeper name).result_eq (hown.of_ends name (hends name hname)) (ends_mapError _)

end Resolver

namespace Store

section Batches

variable [Calculator] (s : Store) (t : FileTree) (tables : Tables) (lenient : Bool) (depth : Nat)

/-- Resolves a board on its own. -/
def resolve (name : String) : Except (Stop BoardError) Board × Store :=
  s.run t fun lib => (Resolver.mk lib tables lenient).resolve depth name

/-- Resolves a batch of boards. -/
def resolveAll (names : List String) : Except (Stop Empty) BatchReport × Store :=
  s.run t fun lib => (Resolver.mk lib tables lenient).resolveAll depth names

/-- Resolves boards on their own, each on the store that the one before it left. -/
def resolveEach (names : List String) : List (Except (Stop BoardError) Board) × Store :=
  s.runEach t (fun name lib => (Resolver.mk lib tables lenient).resolve depth name) names

variable {s t tables lenient depth}

theorem run_resolveInto {names : List String}
    (h : ∀ name ∈ names, Ends ((Resolver.mk (s.library t) tables lenient).resolve depth name).result)
    (report : BatchReport) :
    (s.run t fun lib => (Resolver.mk lib tables lenient).resolveInto depth report names).2 =
      (s.resolveEach t tables lenient depth names).2 := by
  induction names generalizing s report with
  | nil => rfl
  | cons name rest ih =>
    obtain ⟨hname, hrest⟩ := List.forall_mem_cons.1 h
    obtain ⟨v, hv⟩ := ends_iff.1 hname
    have hread : ((Resolver.mk (s.library t) tables lenient).resolve depth name).Faithful (s.library t) :=
      Resolver.faithful_resolve _ depth name
    have hleft : (s.resolve t tables lenient depth name).2.library t = s.library t := library_run hread
    have hrun := run_bind (x := fun lib => ((Resolver.mk lib tables lenient).resolve depth name).attempt)
      (f := fun v lib => (Resolver.mk lib tables lenient).resolveInto depth (report.add name v) rest) hread.attempt
    have hfirst : s.run t (fun lib => (((Resolver.mk lib tables lenient).resolve depth name).attempt :
        Loading (Stop Empty) (Except BoardError Board))) = (.ok v, (s.resolve t tables lenient depth name).2) :=
      congrArg (·, _) (Loading.result_attempt hv)
    rw [hfirst] at hrun
    refine (congrArg Prod.snd hrun).trans ?_
    rw [← hleft] at hrest
    exact ih hrest (report.add name v)

/-- **A batch that ends** gives the report of the verdicts on its names, and leaves the store that they leave when each
of them is resolved on its own. -/
theorem resolveAll_eq {own : String → Except BoardError Board}
    (hown : (Resolver.mk (s.library t) tables lenient).Gives depth own) {names expanded : List String}
    (h : (Resolver.mk (s.library t) tables lenient).expandNames names = .ok expanded)
    (hends : ∀ name ∈ expanded, Ends ((Resolver.mk (s.library t) tables lenient).resolve depth name).result) :
    s.resolveAll t tables lenient depth names =
      (.ok (.ofVerdicts (verdictsAfter own [] expanded)), (s.resolveEach t tables lenient depth expanded).2) := by
  refine Prod.ext (Resolver.resolveAll_eq hown h hends) ?_
  rw [← run_resolveInto hends {}]
  simp only [resolveAll, run, Resolver.resolveAll, h]

end Batches

/-! ### Twins, and a board that does not end -/

section Twins

open scoped BoardAtlas.Expr

end Twins

end Store

end BoardAtlas
