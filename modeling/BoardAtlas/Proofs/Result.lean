import Mathlib.Data.List.Forall2

/-!
# Results of steps that may fail

What a successful computation says about its steps, without and with a state.

* `Except.bind_eq_ok`, `Except.map_eq_ok`, `Except.mapError_eq_ok`: steps that may fail;
* `Except.fault?`, `Except.fault?_bind`: what they fail with;
* `EStateM.bind_eq_ok`, `EStateM.ofExcept_eq_ok`: steps that change a state as well;
* **`Except.forall_mem_of_mapM`**, **`EStateM.forall_mem_of_mapM`**: a step taken for every element of a list;
* **`Except.mapM_eq_ok_iff`**, **`Except.mapM_eq_error`**: all the elements succeed, or the first that fails decides;
* `Except.firstFault?`, `Except.fault?_mapM`, **`Except.firstFault?_eq_some_iff`**: what the first element that fails
  fails with.
-/

namespace BoardAtlas

variable {ε ε' σ α β : Type}

namespace Except

theorem bind_eq_ok {x : Except ε α} {f : α → Except ε β} {b : β} :
    (x >>= f) = .ok b ↔ ∃ a, x = .ok a ∧ f a = .ok b := by
  cases x with
  | error e =>
    change Except.error e = _ ↔ _
    simp
  | ok a =>
    change f a = _ ↔ _
    simp

theorem map_eq_ok {x : Except ε α} {f : α → β} {b : β} :
    x.map f = .ok b ↔ ∃ a, x = .ok a ∧ f a = b := by
  cases x with
  | error e =>
    change Except.error e = _ ↔ _
    simp
  | ok a =>
    change Except.ok (f a) = _ ↔ _
    simp

theorem map_eq_error {x : Except ε α} {f : α → β} {e : ε} : x.map f = .error e ↔ x = .error e := by
  cases x with
  | error e' =>
    change Except.error e' = _ ↔ _
    simp
  | ok a =>
    change Except.ok (f a) = _ ↔ _
    simp

theorem mapError_eq_ok {x : Except ε α} {g : ε → ε'} {a : α} :
    x.mapError g = .ok a ↔ x = .ok a := by
  cases x with
  | error e =>
    change Except.error (g e) = _ ↔ _
    simp
  | ok b =>
    change Except.ok b = _ ↔ _
    simp

theorem toOption_eq_some {x : Except ε α} {a : α} : x.toOption = some a ↔ x = .ok a := by
  cases x <;> simp [Except.toOption]

/-- What a computation fails with. -/
def fault? : Except ε α → Option ε
  | .ok _ => none
  | .error e => some e

theorem fault?_eq_none_iff {x : Except ε α} : fault? x = none ↔ ∃ a, x = .ok a := by
  cases x <;> simp [fault?]

theorem fault?_eq_some_iff {x : Except ε α} {e : ε} : fault? x = some e ↔ x = .error e := by
  cases x <;> simp [fault?]

theorem fault?_map (f : α → β) (x : Except ε α) : fault? (x.map f) = fault? x := by
  cases x <;> rfl

/-- The first of two steps fails, or the second one does, whatever it gets from the first. -/
theorem fault?_bind {x : Except ε α} {f : α → Except ε β} {second : Option ε} (h : ∀ a, fault? (f a) = second) :
    fault? (x >>= f) = (fault? x).or second := by
  cases x with
  | error e => rfl
  | ok a => exact h a

section Elements

variable {step : α → Except ε β} {as : List α}

/-- **A list of steps succeeds** with the results of all of them. -/
theorem mapM_eq_ok_iff {bs : List β} :
    as.mapM step = .ok bs ↔ List.Forall₂ (fun a b => step a = .ok b) as bs := by
  induction as generalizing bs with
  | nil =>
    rw [List.forall₂_nil_left_iff]
    constructor
    · rintro ⟨⟩
      rfl
    · rintro rfl
      rfl
  | cons a as ih =>
    rw [List.mapM_cons, bind_eq_ok, List.forall₂_cons_left_iff]
    constructor
    · rintro ⟨b, hb, h⟩
      obtain ⟨bs', hbs, h⟩ := bind_eq_ok.1 h
      cases h
      exact ⟨b, bs', hb, ih.1 hbs, rfl⟩
    · rintro ⟨b, bs', hb, hbs, rfl⟩
      exact ⟨b, hb, bind_eq_ok.2 ⟨bs', ih.2 hbs, rfl⟩⟩

theorem exists_mapM_eq_ok_iff : (∃ bs, as.mapM step = .ok bs) ↔ ∀ a ∈ as, ∃ b, step a = .ok b := by
  simp only [mapM_eq_ok_iff]
  induction as with
  | nil => simp
  | cons a as ih =>
    rw [List.forall_mem_cons, ← ih]
    constructor
    · rintro ⟨_, ⟨⟩⟩
      exact ⟨⟨_, ‹_›⟩, _, ‹_›⟩
    · rintro ⟨⟨b, hb⟩, bs, hbs⟩
      exact ⟨b :: bs, .cons hb hbs⟩

/-- What every successful step gives, a list of them gives throughout. -/
theorem forall_mem_of_mapM {P : β → Prop} (hstep : ∀ a b, step a = .ok b → P b) {bs : List β}
    (h : as.mapM step = .ok bs) : ∀ b ∈ bs, P b := by
  rw [mapM_eq_ok_iff] at h
  induction h with
  | nil => simp
  | cons hb _ ih => exact List.forall_mem_cons.2 ⟨hstep _ _ hb, ih⟩

theorem mem_flatten_of_mapM {step : α → Except ε (List β)} {bs : List (List β)} (h : as.mapM step = .ok bs)
    {x : β} : x ∈ bs.flatten ↔ ∃ a ∈ as, ∃ b, step a = .ok b ∧ x ∈ b := by
  rw [mapM_eq_ok_iff] at h
  induction h with
  | nil => simp
  | cons hb _ ih =>
    rw [List.flatten_cons, List.mem_append, ih, List.exists_mem_cons_iff]
    refine or_congr_left ⟨fun hx => ⟨_, hb, hx⟩, ?_⟩
    rintro ⟨b, hb', hx⟩
    rw [hb] at hb'
    cases hb'
    exact hx

theorem getElem?_of_mapM {bs : List β} (h : as.mapM step = .ok bs) :
    bs.length = as.length ∧ ∀ (k : Nat) (a : α), as[k]? = some a → ∃ b, bs[k]? = some b ∧ step a = .ok b := by
  rw [mapM_eq_ok_iff] at h
  induction h with
  | nil => simp
  | cons hb _ ih =>
    refine ⟨congrArg (· + 1) ih.1, fun k a ha => ?_⟩
    cases k with
    | zero =>
      cases ha
      exact ⟨_, rfl, hb⟩
    | succ k => exact ih.2 k a ha

theorem exists_mem_of_mapM_eq_error {e : ε} (h : as.mapM step = .error e) : ∃ a ∈ as, step a = .error e := by
  induction as with
  | nil => cases h
  | cons a as ih =>
    rw [List.mapM_cons] at h
    cases hstep : step a with
    | error e' =>
      rw [hstep] at h
      cases h
      exact ⟨a, List.mem_cons_self, hstep⟩
    | ok b =>
      rw [hstep] at h
      cases hrest : as.mapM step with
      | error e' =>
        rw [hrest] at h
        cases h
        obtain ⟨a', ha', he⟩ := ih hrest
        exact ⟨a', List.mem_cons_of_mem a ha', he⟩
      | ok bs =>
        rw [hrest] at h
        cases h

/-- **The first step that fails** decides for the list. -/
theorem mapM_eq_error {k : Nat} {a : α} {e : ε} (ha : as[k]? = some a) (he : step a = .error e)
    (hbefore : ∀ l < k, ∀ x, as[l]? = some x → ∃ b, step x = .ok b) : as.mapM step = .error e := by
  induction as generalizing k with
  | nil => cases ha
  | cons x as ih =>
    rw [List.mapM_cons]
    cases k with
    | zero =>
      cases ha
      rw [he]
      rfl
    | succ k =>
      obtain ⟨b, hb⟩ := hbefore 0 (Nat.zero_lt_succ k) x rfl
      rw [hb, ih ha fun l hl => hbefore (l + 1) (Nat.succ_lt_succ hl)]
      rfl

variable (step) in
/-- What the first step that fails fails with. -/
def firstFault? (as : List α) : Option ε := as.findSome? fun a => fault? (step a)

theorem firstFault?_cons (a : α) (as : List α) :
    firstFault? step (a :: as) = (fault? (step a)).or (firstFault? step as) := by
  rw [firstFault?, List.findSome?_cons]
  cases fault? (step a) <;> rfl

theorem firstFault?_append (as as' : List α) :
    firstFault? step (as ++ as') = (firstFault? step as).or (firstFault? step as') := List.findSome?_append

/-- A list of steps fails with what the first one that fails does. -/
theorem fault?_mapM : fault? (as.mapM step) = firstFault? step as := by
  induction as with
  | nil => rfl
  | cons a as ih =>
    rw [List.mapM_cons, firstFault?_cons]
    refine fault?_bind fun b => ?_
    rw [← ih]
    cases as.mapM step <;> rfl

theorem firstFault?_eq_none_iff : firstFault? step as = none ↔ ∀ a ∈ as, ∃ b, step a = .ok b := by
  rw [firstFault?, List.findSome?_eq_none_iff]
  simp only [fault?_eq_none_iff]

theorem firstFault?_eq_some_iff {e : ε} : firstFault? step as = some e ↔
    ∃ before a after, as = before ++ a :: after ∧ (∀ x ∈ before, ∃ b, step x = .ok b) ∧ step a = .error e := by
  rw [firstFault?, List.findSome?_eq_some_iff]
  simp only [fault?_eq_none_iff, fault?_eq_some_iff, and_comm]

end Elements

end Except

namespace EStateM

theorem bind_eq_ok {x : EStateM ε σ α} {f : α → EStateM ε σ β} {s t : σ} {b : β} :
    (x >>= f) s = .ok b t ↔ ∃ a u, x s = .ok a u ∧ f a u = .ok b t := by
  change EStateM.bind x f s = _ ↔ _
  unfold EStateM.bind
  cases x s with
  | ok a u =>
    constructor
    · exact fun h => ⟨a, u, rfl, h⟩
    · rintro ⟨_, _, ⟨⟩, h⟩
      exact h
  | error e u => simp

theorem ofExcept_eq_ok {x : Except ε α} {s t : σ} {a : α} :
    (MonadExcept.ofExcept x : EStateM ε σ α) s = .ok a t ↔ x = .ok a ∧ s = t := by
  cases x with
  | error e =>
    change EStateM.Result.error e s = _ ↔ _
    simp
  | ok b =>
    change EStateM.Result.ok b s = _ ↔ _
    simp

/-- What every successful step gives, a list of them gives throughout. -/
theorem forall_mem_of_mapM {step : α → EStateM ε σ β} {P : β → Prop}
    (hstep : ∀ a s b t, step a s = .ok b t → P b) {as : List α} {bs : List β} {s t : σ}
    (h : as.mapM step s = .ok bs t) : ∀ b ∈ bs, P b := by
  induction as generalizing bs s with
  | nil =>
    cases h
    simp
  | cons a rest ih =>
    rw [List.mapM_cons, bind_eq_ok] at h
    obtain ⟨b, u, hb, h⟩ := h
    obtain ⟨bs', v, hbs, h⟩ := bind_eq_ok.1 h
    cases h
    exact List.forall_mem_cons.2 ⟨hstep a s b u hb, ih hbs⟩

end EStateM

end BoardAtlas
