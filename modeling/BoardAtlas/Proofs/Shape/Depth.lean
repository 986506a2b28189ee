import BoardAtlas.Proofs.Library.Memory
import BoardAtlas.Shape.Builder

/-!
# Depths

A depth decides whether a computation has a result, but not which: what is followed deeper reads and gives the same,
unless it was unfinished.

* `ends_iff`: values and failures;
* `Loading.Deepens`, **`Loading.Deepens.bind`**: a computation that is followed deeper;
* `BuildOne.Extends`: one way to build shapes goes deeper than another;
* **`ShapeBuilder.buildWithin_mono`**: shapes, by induction on the depth.
-/

namespace BoardAtlas

/-! ## Computations -/

section Ends

variable {ε α : Type} {result : Except (Stop ε) α}

theorem ends_of_ok {a : α} (h : result = .ok a) : Ends result := by
  rw [h]
  nofun

theorem ends_mapError (v : Except ε α) : Ends (v.mapError Stop.failed) := by
  cases v <;> nofun

theorem ends_iff : Ends result ↔ ∃ v : Except ε α, result = v.mapError .failed := by
  refine ⟨fun h => ?_, fun ⟨v, hv⟩ => hv ▸ ends_mapError v⟩
  match result with
  | .ok a => exact ⟨.ok a, rfl⟩
  | .error (.failed e) => exact ⟨.error e, rfl⟩
  | .error .unfinished => exact absurd rfl h

end Ends

namespace Loading

variable {ε ε' α β : Type} {x y : Loading (Stop ε) α} {f g : α → Loading (Stop ε) β}

/-- The second computation is the first one, unless that is unfinished. -/
def Deepens (x y : Loading (Stop ε) α) : Prop := x.result = .error .unfinished ∨ y = x

namespace Deepens

theorem refl (x : Loading (Stop ε) α) : Deepens x x := .inr rfl

theorem eq_of_ends (h : Deepens x y) (hx : Ends x.result) : y = x := h.resolve_left hx

theorem result_eq (h : Deepens x y) {result : Except (Stop ε) α} (hx : x.result = result) (hends : Ends result) :
    y.result = result := by
  rw [h.eq_of_ends (hx ▸ hends), hx]

theorem bind (h : Deepens x y) (hfg : ∀ a, Deepens (f a) (g a)) : Deepens (x >>= f) (y >>= g) := by
  rcases h with hx | rfl
  · rw [bind_of_error hx]
    exact .inl rfl
  · cases hy : y.result with
    | error e =>
      rw [bind_of_error hy, bind_of_error hy]
      exact .refl _
    | ok a =>
      rw [bind_of_ok hy, bind_of_ok hy]
      exact (hfg a).imp id fun hsame => by rw [hsame]

theorem mapError (h : Deepens x y) (f : ε → ε') :
    Deepens (x.mapError (Stop.map f)) (y.mapError (Stop.map f)) := by
  refine h.imp (fun hx => ?_) fun hsame => by rw [hsame]
  rw [result_mapError, hx]
  rfl

theorem attempt (h : Deepens x y) :
    Deepens (x.attempt : Loading (Stop ε') (Except ε α)) (y.attempt : Loading (Stop ε') (Except ε α)) :=
  h.imp result_attempt_of_unfinished fun hsame => by rw [hsame]

end Deepens

end Loading

/-! ## Shapes -/

open Loading

variable {α : Type} [Coordinate α]

/-- A way to build shapes that goes deeper than another one. -/
def BuildOne.Extends (other build : BuildOne α) : Prop :=
  ∀ scope data, Deepens (build scope data) (other scope data)

namespace BuildOne.Extends

variable {lib : Library} {build other : BuildOne α}

theorem buildFrom (h : other.Extends build) (scope : Scope) (offset : Vec α) (i : Nat) (items : List Value) :
    Deepens (buildFrom build scope offset i items) (buildFrom other scope offset i items) := by
  induction items generalizing i with
  | nil => exact .refl _
  | cons data rest ih =>
    rw [BoardAtlas.buildFrom, BoardAtlas.buildFrom]
    exact (h _ data).bind fun _ => (ih (i + 1)).bind fun _ => .refl _

theorem buildNamed (h : other.Extends build) (scope : Scope) (name : String) (offset : Vec α) :
    Deepens (buildNamed lib build scope name offset) (buildNamed lib other scope name offset) := by
  rw [BoardAtlas.buildNamed, BoardAtlas.buildNamed]
  refine (Deepens.refl _).bind fun v => ?_
  cases v with
  | list items => exact h.buildFrom _ offset 0 items
  | _ => exact .refl _

omit [Coordinate α] in
theorem buildTurns {turn deeper : Nat → Loading (Stop ShapeError) (List (Shape α))}
    (h : ∀ i, Deepens (turn i) (deeper i)) (i n : Nat) :
    Deepens (buildTurns turn i n) (buildTurns deeper i n) := by
  induction n generalizing i with
  | zero => exact .refl _
  | succ n ih =>
    rw [BoardAtlas.buildTurns, BoardAtlas.buildTurns]
    exact (h i).bind fun _ => (ih (i + 1)).bind fun _ => .refl _

theorem buildChildren (h : other.Extends build) (vars : Vars) (path : String) (frame : Frame α)
    (name : String) (count : Nat) :
    Deepens (buildChildren lib build vars path frame name count)
      (buildChildren lib other vars path frame name count) :=
  buildTurns (fun _ => h.buildNamed _ name frame.pos) 0 count

end BuildOne.Extends

namespace ShapeBuilder

variable [Calculator] {b : ShapeBuilder} {depth deeper : Nat}

/-- **What ends at a depth** is built alike, or fails alike, at any greater one. -/
theorem buildWithin_mono (h : depth ≤ deeper) :
    (b.buildWithin deeper : BuildOne α).Extends (b.buildWithin depth) := by
  induction depth generalizing deeper with
  | zero => exact fun scope data => .inl rfl
  | succ depth ih =>
    obtain ⟨deeper, rfl⟩ : ∃ n, deeper = n + 1 := ⟨deeper - 1, by omega⟩
    have hbelow := ih (Nat.le_of_succ_le_succ h)
    intro scope data
    rw [buildWithin, buildWithin]
    refine (Deepens.refl _).bind fun f => (Deepens.refl _).bind fun plan => ?_
    cases plan with
    | shape s => exact .refl _
    | group frame name count => exact (hbelow.buildChildren _ _ _ _ _).bind fun _ => .refl _

theorem buildList_mono (h : depth ≤ deeper) (scope : Scope) (items : List Value) (offset : Vec α) :
    Deepens (b.buildList depth scope items offset) (b.buildList deeper scope items offset) :=
  (buildWithin_mono h).buildFrom scope offset 0 items

end ShapeBuilder

end BoardAtlas
