import BoardAtlas.Board.Resolver
import BoardAtlas.Proofs.Result
import BoardAtlas.Proofs.Shape.Depth

/-!
# Depths of boards

A board that ends at a depth is the same at any greater one, and a batch ends where each of its names does.

* `Resolver.resolve_mono`, `Resolver.resolveAll_mono`: what ends at a depth stays as it is;
* `Resolver.resolve_of_unfinished`: shapes that are not finished;
* `Resolver.result_resolveInto`, `Resolver.ends_resolveInto_iff`: names that are added to a report;
* **`Resolver.exists_ends_resolveAll_iff`**: the depth that suffices for all names.
-/

namespace BoardAtlas.Resolver

open Loading

variable [Calculator] {r : Resolver} {depth deeper : Nat}

/-! ## Greater depths -/

theorem sideShapes_mono (h : depth ≤ deeper) (side : Side) (sources : List ShapeSource) :
    Deepens (r.sideShapes depth side sources) (r.sideShapes deeper side sources) := by
  induction sources with
  | nil => exact .refl _
  | cons s rest ih =>
    rw [sideShapes, sideShapes]
    exact (ShapeBuilder.buildList_mono h _ _ _).bind fun _ => ih.bind fun _ => .refl _

theorem sideGroup_mono (h : depth ≤ deeper) (name : String) (sources : List ShapeSource) (side : Side) :
    Deepens (r.sideGroup depth name sources side) (r.sideGroup deeper name sources side) :=
  (sideShapes_mono h side sources).bind fun _ => .refl _

theorem assemble_mono (h : depth ≤ deeper) (name : String) (b : Board) (p : Pcb) :
    Deepens (r.assemble depth name b p) (r.assemble deeper name b p) := by
  rw [assemble, assemble]
  refine (Deepens.refl _).bind fun templates => ?_
  refine ((sideGroup_mono h name _ .front).mapError _).bind fun front => ?_
  exact ((sideGroup_mono h name _ .back).mapError _).bind fun back => .refl _

theorem resolve_mono (h : depth ≤ deeper) (name : String) :
    Deepens (r.resolve depth name) (r.resolve deeper name) := by
  rw [resolve, resolve]
  refine (Deepens.refl _).bind fun manifest => (Deepens.refl _).bind fun b => ?_
  cases b.pcb with
  | none => exact .refl _
  | some p => exact (assemble_mono h name b p).bind fun _ => .refl _

theorem resolveInto_mono (h : depth ≤ deeper) (report : BatchReport) (names : List String) :
    Deepens (r.resolveInto depth report names) (r.resolveInto deeper report names) := by
  induction names generalizing report with
  | nil => exact .refl _
  | cons name rest ih =>
    rw [resolveInto, resolveInto]
    exact (resolve_mono h name).attempt.bind fun _ => ih _

theorem resolveAll_mono (h : depth ≤ deeper) (names : List String) :
    Deepens (r.resolveAll depth names) (r.resolveAll deeper names) := by
  rw [resolveAll, resolveAll]
  split
  · exact resolveInto_mono h {} _
  · exact .refl _

variable {names : List String}

theorem result_resolveInto {own : String → Except BoardError Board}
    (h : ∀ name ∈ names, (r.resolve depth name).result = (own name).mapError .failed) (report : BatchReport) :
    (r.resolveInto depth report names).result =
      .ok (names.foldl (fun report name => report.add name (own name)) report) := by
  induction names generalizing report with
  | nil => rfl
  | cons name rest ih =>
    obtain ⟨hname, hrest⟩ := List.forall_mem_cons.1 h
    rw [resolveInto, result_bind, result_attempt hname]
    exact ih hrest (report.add name (own name))

theorem ends_resolveInto_iff (report : BatchReport) :
    Ends (r.resolveInto depth report names).result ↔ ∀ name ∈ names, Ends (r.resolve depth name).result := by
  induction names generalizing report with
  | nil => exact iff_of_true nofun (by simp)
  | cons name rest ih =>
    rw [resolveInto, result_bind, List.forall_mem_cons]
    by_cases h : Ends (r.resolve depth name).result
    · obtain ⟨v, hv⟩ := ends_iff.1 h
      rw [result_attempt hv, and_iff_right h]
      exact ih (report.add name v)
    · rw [result_attempt_of_unfinished (not_not.1 h)]
      exact iff_of_false (fun hends => hends rfl) fun hends => h hends.1

theorem ends_resolve_mono (h : depth ≤ deeper) {name : String} (hends : Ends (r.resolve depth name).result) :
    Ends (r.resolve deeper name).result := by
  rwa [(resolve_mono h name).eq_of_ends hends]

theorem exists_ends_forall (h : ∀ name ∈ names, ∃ depth, Ends (r.resolve depth name).result) :
    ∃ depth, ∀ name ∈ names, Ends (r.resolve depth name).result := by
  induction names with
  | nil => exact ⟨0, by simp⟩
  | cons name rest ih =>
    obtain ⟨⟨first, hfirst⟩, hrest⟩ := List.forall_mem_cons.1 h
    obtain ⟨depth, hdepth⟩ := ih hrest
    refine ⟨max first depth, List.forall_mem_cons.2 ⟨ends_resolve_mono (Nat.le_max_left ..) hfirst, ?_⟩⟩
    exact fun name hname => ends_resolve_mono (Nat.le_max_right ..) (hdepth name hname)

/-- **A batch ends where each of its names does**, on its own. -/
theorem exists_ends_resolveAll_iff : (∃ depth, Ends (r.resolveAll depth names).result) ↔
    ∀ expanded, r.expandNames names = .ok expanded →
      ∀ name ∈ expanded, ∃ depth, Ends (r.resolve depth name).result := by
  simp only [resolveAll]
  cases r.expandNames names with
  | error e => exact iff_of_true ⟨0, nofun⟩ nofun
  | ok expanded =>
    simp only [ends_resolveInto_iff, Except.ok.injEq, forall_eq']
    exact ⟨fun ⟨depth, h⟩ name hname => ⟨depth, h name hname⟩, exists_ends_forall⟩

end BoardAtlas.Resolver
