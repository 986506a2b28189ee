import BoardAtlas.Library.Store
import BoardAtlas.Proofs.Manifest.Distinct
import BoardAtlas.Proofs.Result

/-!
# Manifests that are read

A document may write a key twice; what is read keeps one value for it. So no manifest that comes from a file
has an object with a repeated key.

* `distinct_ofJson_obj_iff`: repeated keys of a document and of its value;
* `Plain`, `Kept`: what a token and a half-read document bring along, with `State.Kept.step`;
* **`distinct_ofJson_of_read`**, `distinct_of_readValue`: texts and files.
-/

namespace BoardAtlas

namespace Value

theorem membersOfJson_eq (fields : List (String × Json)) :
    membersOfJson fields = Dict.mapValues ofJson fields := by
  induction fields with
  | nil => rfl
  | cons e rest ih =>
    obtain ⟨k, v⟩ := e
    rw [membersOfJson, ih]
    rfl

theorem itemsOfJson_eq (items : List Json) : itemsOfJson items = items.map ofJson := by
  induction items with
  | nil => rfl
  | cons v rest ih => rw [itemsOfJson, ih, List.map_cons]

theorem distinct_ofJson_obj_iff {fields : Dict Json} :
    (ofJson (.obj fields)).Distinct ↔
      Dict.Distinct fields ∧ ∀ e ∈ fields, (ofJson e.2).Distinct := by
  rw [ofJson, distinct_obj_iff, membersOfJson_eq, Dict.Distinct, Dict.keys_mapValues]
  refine and_congr_right fun _ => ?_
  rw [Dict.mapValues, List.forall_mem_map]

theorem distinct_ofJson_arr_iff {items : List Json} :
    (ofJson (.arr items)).Distinct ↔ ∀ v ∈ items, (ofJson v).Distinct := by
  rw [ofJson, distinct_list_iff, itemsOfJson_eq]
  simp

end Value

namespace Json

/-! ## Tokens -/

/-- A token that brings no repeated keys along; of the leaves, those that are numbers or words. -/
def Token.Plain (t : Token) : Prop := ∀ v, t = .leaf v → (Value.ofJson v).Distinct

theorem plain_leaf {v : Json} (h : (Value.ofJson v).Distinct) : (Token.leaf v).Plain := by
  rintro _ ⟨⟩
  exact h

theorem distinct_of_numberOf? {negative : Bool} {whole fraction : List Char}
    {power : Option (Bool × List Char)} {v : Json}
    (h : numberOf? negative whole fraction power = some v) : (Value.ofJson v).Distinct := by
  have int (n : Int) : (Value.ofJson (.int n)).Distinct := by simp [Value.ofJson, Value.Distinct]
  have float (x : Float) : (Value.ofJson (.float x)).Distinct := by
    simp [Value.ofJson, Value.Distinct]
  unfold numberOf? at h
  simp only at h
  split at h
  · split at h
    · split at h <;> cases h <;> first | exact int _ | exact float _
    · cases h
      exact int _
  · cases power with
    | none =>
      obtain ⟨x, -, rfl⟩ := Option.map_eq_some_iff.1 h
      exact float _
    | some p =>
      simp only at h
      split at h
      · split at h <;> cases h
        exact float _
      · obtain ⟨x, -, rfl⟩ := Option.map_eq_some_iff.1 h
        exact float _

theorem distinct_of_number? {cs rest : List Char} {v : Json} (h : number? cs = some (v, rest)) :
    (Value.ofJson v).Distinct := by
  have unsigned {negative : Bool} {cs : List Char} (h : unsigned? negative cs = some (v, rest)) :
      (Value.ofJson v).Distinct := by
    unfold unsigned? at h
    simp only at h
    split at h
    · cases h
    · split at h
      · split at h
        · cases h
        · simp only [Option.bind_eq_some_iff, Option.map_eq_some_iff, Prod.mk.injEq] at h
          obtain ⟨_, -, _, hv, rfl, -⟩ := h
          exact distinct_of_numberOf? hv
      · simp only [Option.bind_eq_some_iff, Option.map_eq_some_iff, Prod.mk.injEq] at h
        obtain ⟨_, -, _, hv, rfl, -⟩ := h
        exact distinct_of_numberOf? hv
  unfold number? at h
  split at h <;> exact unsigned h

theorem plain_of_token? {cs rest : List Char} {t : Token} (h : token? cs = some (t, rest)) :
    t.Plain := by
  unfold token? at h
  split at h
  iterate 6 · cases h; rintro _ ⟨⟩
  · simp only [Option.map_eq_some_iff, Prod.mk.injEq] at h
    obtain ⟨_, -, rfl, -⟩ := h
    rintro _ ⟨⟩
  iterate 3 · cases h; exact plain_leaf (by simp [Value.ofJson, Value.Distinct])
  · simp only [Option.map_eq_some_iff, Prod.mk.injEq] at h
    obtain ⟨⟨v, _⟩, hv, rfl, -⟩ := h
    exact plain_leaf (distinct_of_number? hv)

theorem plain_of_tokensWithin? {n : Nat} {cs : List Char} {tokens : List Token}
    (h : tokensWithin? n cs = some tokens) : ∀ t ∈ tokens, t.Plain := by
  induction n generalizing cs tokens with
  | zero =>
    cases cs with
    | nil => cases h; simp
    | cons c cs => cases h
  | succ n ih =>
    cases cs with
    | nil => cases h; simp
    | cons c cs =>
      rw [tokensWithin?] at h
      split at h
      · exact ih h
      · simp only [Option.bind_eq_some_iff, Option.map_eq_some_iff, Prod.exists] at h
        obtain ⟨t, rest, ht, more, hmore, rfl⟩ := h
        exact List.forall_mem_cons.2 ⟨plain_of_token? ht, ih hmore⟩

/-! ## Half-read documents -/

/-- What is in an open container so far has no repeated keys. -/
def Open.Kept : Open → Prop
  | .array items => ∀ v ∈ items, (Value.ofJson v).Distinct
  | .object members => ∀ e ∈ members, (Value.ofJson e.2).Distinct
  | .member members _ => ∀ e ∈ members, (Value.ofJson e.2).Distinct

/-- What has been read so far has no repeated keys. -/
structure State.Kept (s : State) : Prop where
  stack : ∀ container ∈ s.stack, container.Kept
  document : ∀ v, s.expected = .nothing v → (Value.ofJson v).Distinct

theorem kept_of_finish {v : Json} {stack : List Open} {s : State}
    (hv : (Value.ofJson v).Distinct) (hs : ∀ container ∈ stack, container.Kept)
    (h : State.finish v stack = some s) : s.Kept := by
  rcases stack with _ | ⟨items | members | ⟨members, key⟩, stack⟩
  · cases h
    exact ⟨by simp, by rintro _ ⟨⟩; exact hv⟩
  · cases h
    obtain ⟨hitems, hrest⟩ := List.forall_mem_cons.1 hs
    refine ⟨List.forall_mem_cons.2 ⟨List.forall_mem_cons.2 ⟨hv, hitems⟩, hrest⟩, ?_⟩
    rintro _ ⟨⟩
  · cases h
  · cases h
    obtain ⟨hmembers, hrest⟩ := List.forall_mem_cons.1 hs
    refine ⟨List.forall_mem_cons.2 ⟨List.forall_mem_cons.2 ⟨hv, hmembers⟩, hrest⟩, ?_⟩
    rintro _ ⟨⟩

theorem kept_of_enter {container : Open} {expected : Expected} {stack : List Open} {s : State}
    (hc : container.Kept) (he : ∀ v, expected ≠ .nothing v)
    (hs : ∀ container ∈ stack, container.Kept)
    (h : State.enter container expected stack = some s) : s.Kept := by
  unfold State.enter at h
  split at h
  · cases h
    exact ⟨List.forall_mem_cons.2 ⟨hc, hs⟩, fun v hv => absurd hv (he v)⟩
  · cases h

theorem kept_of_value {stack : List Open} {t : Token} {s : State} (ht : t.Plain)
    (hs : ∀ container ∈ stack, container.Kept) (h : State.value stack t = some s) : s.Kept := by
  cases t with
  | openObject => exact kept_of_enter (by simp [Open.Kept]) (by simp) hs h
  | openArray => exact kept_of_enter (by simp [Open.Kept]) (by simp) hs h
  | text x => exact kept_of_finish (by simp [Value.ofJson, Value.Distinct]) hs h
  | leaf v => exact kept_of_finish (ht v rfl) hs h
  | _ => cases h

theorem kept_of_key {stack : List Open} {t : Token} {s : State}
    (hs : ∀ container ∈ stack, container.Kept) (h : State.key stack t = some s) : s.Kept := by
  unfold State.key at h
  split at h
  · split at h
    · cases h
      obtain ⟨hmembers, hrest⟩ := List.forall_mem_cons.1 hs
      exact ⟨List.forall_mem_cons.2 ⟨hmembers, hrest⟩, by rintro _ ⟨⟩⟩
    · cases h
  · cases h

theorem distinct_ofJson_ofList {members : List (String × Json)}
    (h : ∀ e ∈ members, (Value.ofJson e.2).Distinct) :
    (Value.ofJson (.obj (Dict.ofList members))).Distinct := by
  have hempty : Dict.Distinct ([] : Dict Json) := List.nodup_nil
  refine Value.distinct_ofJson_obj_iff.2 ⟨Dict.distinct_extend hempty members, fun e he => ?_⟩
  rcases Dict.mem_extend he with hnil | hm
  · cases hnil
  · exact h e hm

theorem kept_of_close {stack : List Open} {t : Token} {s : State}
    (hs : ∀ container ∈ stack, container.Kept) (h : State.close stack t = some s) : s.Kept := by
  unfold State.close at h
  split at h
  · split at h
    · next items rest =>
      obtain ⟨hitems, hrest⟩ := List.forall_mem_cons.1 hs
      refine kept_of_finish (Value.distinct_ofJson_arr_iff.2 fun v hv => ?_) hrest h
      exact hitems v (List.mem_reverse.1 hv)
    · cases h
  · split at h
    · next members rest =>
      obtain ⟨hmembers, hrest⟩ := List.forall_mem_cons.1 hs
      refine kept_of_finish (distinct_ofJson_ofList fun e he => ?_) hrest h
      exact hmembers e (List.mem_reverse.1 he)
    · cases h
  · cases h

/-- One token further, nothing that has been read has repeated keys either. -/
theorem State.Kept.step {s s' : State} {t : Token} (hs : s.Kept) (ht : t.Plain)
    (h : s.step t = some s') : s'.Kept := by
  unfold State.step at h
  split at h
  · exact kept_of_value ht hs.stack h
  · rw [Option.orElse_eq_or] at h
    rcases Option.or_eq_some_iff.1 h with h | ⟨-, h⟩
    · exact kept_of_close hs.stack h
    · exact kept_of_value ht hs.stack h
  · rw [Option.orElse_eq_or] at h
    rcases Option.or_eq_some_iff.1 h with h | ⟨-, h⟩
    · exact kept_of_close hs.stack h
    · exact kept_of_key hs.stack h
  · exact kept_of_key hs.stack h
  · split at h
    · cases h
      exact ⟨hs.stack, by rintro _ ⟨⟩⟩
    · cases h
  · split at h
    · cases h
      exact ⟨hs.stack, by rintro _ ⟨⟩⟩
    · cases h
      exact ⟨hs.stack, by rintro _ ⟨⟩⟩
    · exact kept_of_close hs.stack h
  · cases h

theorem State.Kept.foldlM {tokens : List Token} {s s' : State} (hs : s.Kept)
    (ht : ∀ t ∈ tokens, t.Plain) (h : tokens.foldlM State.step s = some s') : s'.Kept := by
  induction tokens generalizing s with
  | nil =>
    cases h
    exact hs
  | cons t rest ih =>
    obtain ⟨htok, hrest⟩ := List.forall_mem_cons.1 ht
    rw [List.foldlM_cons] at h
    obtain ⟨u, hu, h⟩ := Option.bind_eq_some_iff.1 h
    exact ih (hs.step htok hu) hrest h

/-- **A document that is read has no object with a repeated key.** -/
theorem distinct_ofJson_of_read {text : String} {v : Json} (h : read text = .ok v) :
    (Value.ofJson v).Distinct := by
  unfold read at h
  split at h
  · cases h
  · next tokens ht =>
    have start : State.start.Kept := ⟨by simp [State.start], by rintro _ ⟨⟩⟩
    split at h
    · next hs =>
      cases h
      exact (start.foldlM (plain_of_tokensWithin? ht) hs).document _ rfl
    · cases h
    · cases h

end Json

namespace Store

theorem distinct_of_readValue {t : FileTree} {path : String} {v : Value}
    (h : readValue t path = .ok v) : v.Distinct := by
  obtain ⟨text, -, h⟩ := Except.bind_eq_ok.1 h
  obtain ⟨json, hjson, h⟩ := Except.bind_eq_ok.1 h
  cases h
  exact Json.distinct_ofJson_of_read (Except.mapError_eq_ok.1 hjson)

end Store

end BoardAtlas
