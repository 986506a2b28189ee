import BoardAtlas.Manifest.Substitution
import Mathlib.Data.Finset.Card
import Mathlib.Data.Finset.Dedup
import Mathlib.Logic.Relation

/-!
# Texts that settle

Passes over a text replace all its references at once, while a reference stands for the expansion of its
variable's own text. Both come to the same, and as many passes as there are variables are enough whenever
there is an expansion at all.

* `Piece.source`, `WellFormed`: texts whose references cannot be misread;
* `Refers`, `Reaches`: variables that a variable, or a text, leads to;
* `Expands`: recursive expansion, with `Expands.unique` and `Expands.of_unfold`;
* `Within`, `settle_of_within`, `expands_of_settle`: passes against recursion;
* `within_of_acyclic`: a graph without cycles is no deeper than the number of its variables;
* **`substituteText_settles`**: when a text settles, to what, and how it fails.
-/

namespace BoardAtlas

namespace Substitution

open Relation (ReflTransGen TransGen)

/-! ## Pieces and their text -/

/-- The text of a piece. -/
def Piece.source : Piece → List Char
  | .plain c => [c]
  | .reference name => '$' :: '\x7b' :: name ++ ['\x7d']

/-- A piece that can stand beside any other: a character that opens no reference, or a name that neither
opens nor closes one. -/
def Piece.Sound : Piece → Prop
  | .plain c => c ≠ '$'
  | .reference name => '$' ∉ name ∧ '\x7d' ∉ name

instance (p : Piece) : Decidable p.Sound := by
  cases p <;> unfold Piece.Sound <;> infer_instance

/-- The text is put together from sound pieces. -/
def WellFormed (cs : List Char) : Prop :=
  ∃ pieces : List Piece, (∀ p ∈ pieces, p.Sound) ∧ cs = pieces.flatMap Piece.source

theorem piecesFrom_plain {c : Char} (hc : c ≠ '$') (cs : List Char) :
    piecesFrom none (c :: cs) = .plain c :: piecesFrom none cs := by
  rw [piecesFrom]
  rintro rest h -
  exact hc h

theorem piecesFrom_open (read name cs : List Char) (h : '\x7d' ∉ name) :
    piecesFrom (some read) (name ++ '\x7d' :: cs) =
      .reference (read.reverse ++ name) :: piecesFrom none cs := by
  induction name generalizing read with
  | nil => simp [piecesFrom]
  | cons c name ih =>
    obtain ⟨hc, hname⟩ := not_or.1 fun hm => h (List.mem_cons.2 hm)
    rw [List.cons_append, piecesFrom, ih _ hname]
    · simp
    · exact fun e => hc e.symm

/-- **Sound pieces are read back** from their text. -/
theorem piecesOf_source {pieces : List Piece} (h : ∀ p ∈ pieces, p.Sound) :
    piecesOf (pieces.flatMap Piece.source) = pieces := by
  unfold piecesOf
  induction pieces with
  | nil => rfl
  | cons p rest ih =>
    obtain ⟨hp, hrest⟩ := List.forall_mem_cons.1 h
    rw [List.flatMap_cons]
    cases p with
    | plain c =>
      change piecesFrom none (c :: rest.flatMap Piece.source) = _
      rw [piecesFrom_plain hp, ih hrest]
    | reference name =>
      have he : (Piece.reference name).source ++ rest.flatMap Piece.source =
          '$' :: '\x7b' :: (name ++ '\x7d' :: rest.flatMap Piece.source) := by
        simp [Piece.source]
      rw [he, piecesFrom, piecesFrom_open [] name _ hp.2, ih hrest]
      rfl

theorem WellFormed.sound {cs : List Char} (h : WellFormed cs) : ∀ p ∈ piecesOf cs, p.Sound := by
  obtain ⟨pieces, hp, rfl⟩ := h
  rwa [piecesOf_source hp]

theorem WellFormed.source_piecesOf {cs : List Char} (h : WellFormed cs) :
    (piecesOf cs).flatMap Piece.source = cs := by
  obtain ⟨pieces, hp, rfl⟩ := h
  rw [piecesOf_source hp]

theorem opens_source {pieces : List Piece} (h : ∀ p ∈ pieces, p.Sound) :
    opens (pieces.flatMap Piece.source) = true ↔ ∃ name, .reference name ∈ pieces := by
  induction pieces with
  | nil => simp [opens]
  | cons p rest ih =>
    obtain ⟨hp, hrest⟩ := List.forall_mem_cons.1 h
    rw [List.flatMap_cons]
    cases p with
    | plain c =>
      have hc : opens (c :: rest.flatMap Piece.source) = opens (rest.flatMap Piece.source) := by
        rw [opens]
        rintro _ rfl -
        exact hp rfl
      change opens (c :: rest.flatMap Piece.source) = true ↔ _
      simp [hc, ih hrest]
    | reference name => simp [Piece.source, opens]

/-! ## References -/

/-- The names that a text refers to. -/
def namesOf (cs : List Char) : List String := (piecesOf cs).filterMap Piece.name?

/-- A variable is defined and its text refers to the other name. -/
def Refers (vars : Vars) (name other : String) : Prop :=
  ∃ v, vars.get? name = some v ∧ other ∈ namesOf v.varText.toList

/-- A text refers to a name, itself or through variables. -/
def Reaches (vars : Vars) (cs : List Char) (name : String) : Prop :=
  ∃ root ∈ namesOf cs, ReflTransGen (Refers vars) root name

/-- The name and all it leads to are defined, and none leads back to itself. -/
def Grounded (vars : Vars) (name : String) : Prop :=
  ∀ other, ReflTransGen (Refers vars) name other →
    (∃ v, vars.get? other = some v) ∧ ¬ TransGen (Refers vars) other other

theorem Grounded.of_refers {vars : Vars} {name other : String} (h : Grounded vars name)
    (hr : Refers vars name other) : Grounded vars other :=
  fun _ hreach => h _ (hreach.head hr)

theorem grounded_of_forall {vars : Vars} {name : String} {v : Value}
    (hv : vars.get? name = some v) (h : ∀ other ∈ namesOf v.varText.toList, Grounded vars other) :
    Grounded vars name := by
  have next {other : String} (hr : Refers vars name other) : Grounded vars other := by
    obtain ⟨w, hw, hm⟩ := hr
    rw [hv] at hw
    cases hw
    exact h other hm
  intro other hreach
  rcases hreach.cases_head with rfl | ⟨first, hr, hrest⟩
  · refine ⟨⟨v, hv⟩, fun hcycle => ?_⟩
    obtain ⟨first, hr, hback⟩ := TransGen.head'_iff.1 hcycle
    exact (next hr _ hback).2 hcycle
  · exact next hr other hrest

theorem mem_names {pieces : List Piece} {name : List Char} (h : .reference name ∈ pieces) :
    String.ofList name ∈ pieces.filterMap Piece.name? :=
  List.mem_filterMap.2 ⟨_, h, rfl⟩

/-! ## Recursive expansion -/

/-- The pieces as a text in which every reference stands for the expansion of its variable's text. -/
inductive Expands (vars : Vars) : List Piece → List Char → Prop
  | nil : Expands vars [] []
  | plain {c : Char} {pieces : List Piece} {out : List Char} (rest : Expands vars pieces out) :
    Expands vars (.plain c :: pieces) (c :: out)
  | reference {name : List Char} {v : Value} {pieces : List Piece} {part out : List Char}
    (defined : vars.get? (String.ofList name) = some v)
    (inner : Expands vars (piecesOf v.varText.toList) part) (rest : Expands vars pieces out) :
    Expands vars (.reference name :: pieces) (part ++ out)

theorem Expands.unique {vars : Vars} {pieces : List Piece} {out other : List Char}
    (h : Expands vars pieces out) (h' : Expands vars pieces other) : out = other := by
  induction h generalizing other with
  | nil =>
    cases h'
    rfl
  | plain _ ih =>
    cases h' with
    | plain rest => rw [ih rest]
  | reference defined _ _ ihInner ihRest =>
    cases h' with
    | reference defined' inner rest =>
      rw [defined] at defined'
      cases defined'
      rw [ihInner inner, ihRest rest]

theorem Expands.append_inv {vars : Vars} {front back : List Piece} {out : List Char}
    (h : Expands vars (front ++ back) out) :
    ∃ a b, out = a ++ b ∧ Expands vars front a ∧ Expands vars back b := by
  induction front generalizing out with
  | nil => exact ⟨[], out, rfl, .nil, h⟩
  | cons p front ih =>
    rw [List.cons_append] at h
    cases h with
    | plain rest =>
      obtain ⟨a, b, rfl, ha, hb⟩ := ih rest
      exact ⟨_ :: a, b, rfl, .plain ha, hb⟩
    | reference defined inner rest =>
      obtain ⟨a, b, rfl, ha, hb⟩ := ih rest
      exact ⟨_ ++ a, b, (List.append_assoc _ a b).symm, .reference defined inner ha, hb⟩

theorem expands_source {vars : Vars} {pieces : List Piece} (hs : ∀ p ∈ pieces, p.Sound)
    (ho : ¬ opens (pieces.flatMap Piece.source) = true) :
    Expands vars pieces (pieces.flatMap Piece.source) := by
  rw [opens_source hs] at ho
  clear hs
  induction pieces with
  | nil => exact .nil
  | cons p rest ih =>
    cases p with
    | plain c => exact .plain (ih fun ⟨name, hm⟩ => ho ⟨name, List.mem_cons_of_mem _ hm⟩)
    | reference name => exact absurd ⟨name, List.mem_cons_self⟩ ho

theorem Expands.grounded {vars : Vars} {pieces : List Piece} {out : List Char}
    (h : Expands vars pieces out) :
    ∀ name ∈ pieces.filterMap Piece.name?, Grounded vars name := by
  induction h with
  | nil => simp
  | plain _ ih => simpa [Piece.name?] using ih
  | reference defined _ _ ihInner ihRest =>
    exact List.forall_mem_cons.2 ⟨grounded_of_forall defined ihInner, ihRest⟩

/-! ## One pass -/

/-- The pieces that one pass puts in the place of a piece. -/
def Piece.unfold (vars : Vars) (p : Piece) : List Piece :=
  match p.value? vars with
  | some v => piecesOf v.varText.toList
  | none => [p]

/-- The text of every variable is well-formed. -/
def WellFormedVars (vars : Vars) : Prop :=
  ∀ name v, vars.get? name = some v → WellFormed v.varText.toList

theorem sound_unfold {vars : Vars} (hv : WellFormedVars vars) {pieces : List Piece}
    (h : ∀ p ∈ pieces, p.Sound) : ∀ q ∈ pieces.flatMap (Piece.unfold vars), q.Sound := by
  intro q hq
  obtain ⟨p, hp, hq⟩ := List.mem_flatMap.1 hq
  unfold Piece.unfold at hq
  split at hq
  · next v hval =>
    obtain ⟨name, -, hname⟩ := Option.bind_eq_some_iff.1 hval
    exact (hv name v hname).sound q hq
  · exact List.mem_singleton.1 hq ▸ h p hp

theorem source_unfold {vars : Vars} (hv : WellFormedVars vars) (p : Piece) :
    (p.unfold vars).flatMap Piece.source = p.expand vars := by
  unfold Piece.unfold Piece.expand
  cases p with
  | plain c => rfl
  | reference name =>
    cases hval : (Piece.reference name).value? vars with
    | none => simp [Piece.source]
    | some v =>
      obtain ⟨n, -, hname⟩ := Option.bind_eq_some_iff.1 hval
      exact (hv n v hname).source_piecesOf

/-- **A pass over text is a pass over its pieces.** -/
theorem expand_source {vars : Vars} (hv : WellFormedVars vars) {pieces : List Piece}
    (h : ∀ p ∈ pieces, p.Sound) :
    expand vars (pieces.flatMap Piece.source) =
      (pieces.flatMap (Piece.unfold vars)).flatMap Piece.source := by
  rw [expand, piecesOf_source h, List.flatMap_assoc]
  congr 1
  funext p
  exact (source_unfold hv p).symm

theorem replaces_source {vars : Vars} {pieces : List Piece} (h : ∀ p ∈ pieces, p.Sound)
    {name : List Char} {v : Value} (hm : .reference name ∈ pieces)
    (hv : vars.get? (String.ofList name) = some v) :
    replaces vars (pieces.flatMap Piece.source) = true := by
  rw [replaces, piecesOf_source h, List.any_eq_true]
  exact ⟨_, hm, by simp [Piece.value?, Piece.name?, hv]⟩

theorem Expands.of_unfold {vars : Vars} {pieces : List Piece} {out : List Char}
    (h : Expands vars (pieces.flatMap (Piece.unfold vars)) out) : Expands vars pieces out := by
  induction pieces generalizing out with
  | nil => exact h
  | cons p rest ih =>
    rw [List.flatMap_cons] at h
    obtain ⟨a, b, rfl, ha, hb⟩ := h.append_inv
    unfold Piece.unfold at ha
    cases p with
    | plain c =>
      cases ha with
      | plain tail =>
        cases tail
        exact .plain (ih hb)
    | reference name =>
      cases hval : (Piece.reference name).value? vars with
      | none =>
        rw [hval] at ha
        cases ha with
        | reference defined _ _ => simp [Piece.value?, Piece.name?, defined] at hval
      | some v =>
        rw [hval] at ha
        exact .reference hval ha (ih hb)

/-! ## Passes -/

/-- References are defined, and so are those in their variables' texts, and so on, with none left after so
many steps. -/
def Within (vars : Vars) : Nat → List Piece → Prop
  | 0, pieces => ∀ name, .reference name ∉ pieces
  | n + 1, pieces => ∀ name, .reference name ∈ pieces →
    ∃ v, vars.get? (String.ofList name) = some v ∧ Within vars n (piecesOf v.varText.toList)

theorem within_of_plain {vars : Vars} {pieces : List Piece} (h : ∀ name, .reference name ∉ pieces)
    (n : Nat) : Within vars n pieces := by
  cases n with
  | zero => exact h
  | succ n => exact fun name hm => absurd hm (h name)

theorem within_flatMap {vars : Vars} {n : Nat} {pieces : List Piece} {f : Piece → List Piece}
    (h : ∀ p ∈ pieces, Within vars n (f p)) : Within vars n (pieces.flatMap f) := by
  cases n with
  | zero =>
    intro name hm
    obtain ⟨p, hp, hm⟩ := List.mem_flatMap.1 hm
    exact h p hp name hm
  | succ n =>
    intro name hm
    obtain ⟨p, hp, hm⟩ := List.mem_flatMap.1 hm
    exact h p hp name hm

theorem Within.unfold {vars : Vars} {n : Nat} {pieces : List Piece}
    (h : Within vars (n + 1) pieces) : Within vars n (pieces.flatMap (Piece.unfold vars)) := by
  refine within_flatMap fun p hp => ?_
  cases p with
  | plain c => exact within_of_plain (by simp [Piece.unfold, Piece.value?, Piece.name?]) n
  | reference name =>
    obtain ⟨v, hv, hw⟩ := h name hp
    have hval : (Piece.reference name).value? vars = some v := hv
    rw [Piece.unfold, hval]
    exact hw

/-- **Enough passes settle.** -/
theorem settle_of_within {vars : Vars} (hv : WellFormedVars vars) {n : Nat} {pieces : List Piece}
    (hs : ∀ p ∈ pieces, p.Sound) (h : Within vars n pieces) :
    ∃ out, settle vars n (pieces.flatMap Piece.source) = .ok out := by
  induction n generalizing pieces with
  | zero =>
    have ho : ¬ opens (pieces.flatMap Piece.source) = true := by
      rw [opens_source hs]
      exact fun ⟨name, hm⟩ => h name hm
    rw [settle, if_neg ho]
    exact ⟨_, rfl⟩
  | succ n ih =>
    rw [settle]
    split
    · next ho =>
      obtain ⟨name, hm⟩ := (opens_source hs).1 ho
      obtain ⟨v, hval, -⟩ := h name hm
      simp only [replaces_source hs hm hval, if_true, expand_source hv hs]
      exact ih (sound_unfold hv hs) h.unfold
    · exact ⟨_, rfl⟩

/-- **What settles is the expansion.** -/
theorem expands_of_settle {vars : Vars} (hv : WellFormedVars vars) {n : Nat}
    {pieces : List Piece} {out : List Char} (hs : ∀ p ∈ pieces, p.Sound)
    (h : settle vars n (pieces.flatMap Piece.source) = .ok out) : Expands vars pieces out := by
  induction n generalizing pieces with
  | zero =>
    rw [settle] at h
    split at h
    · cases h
    · next ho =>
      cases h
      exact expands_source hs ho
  | succ n ih =>
    rw [settle] at h
    split at h
    · simp only [expand_source hv hs] at h
      split at h
      · exact (ih (sound_unfold hv hs) h).of_unfold
      · cases h
    · next ho =>
      cases h
      exact expands_source hs ho

theorem settle_eq_error {vars : Vars} {n : Nat} {cs : List Char} {e : ManifestError}
    (h : settle vars n cs = .error e) : ∃ rest, e = unresolved rest := by
  induction n generalizing cs with
  | zero =>
    rw [settle] at h
    split at h
    · cases h
      exact ⟨_, rfl⟩
    · cases h
  | succ n ih =>
    rw [settle] at h
    split at h
    · split at h
      · exact ih h
      · cases h
        exact ⟨_, rfl⟩
    · cases h

/-! ## How many passes are enough -/

section Bound

open Classical in
/-- The variables that a name leads to, itself among them. -/
noncomputable def reachable (vars : Vars) (name : String) : Finset String :=
  vars.keys.toFinset.filter fun other => ReflTransGen (Refers vars) name other

theorem mem_keys_of_get? {vars : Vars} {name : String} {v : Value}
    (h : vars.get? name = some v) : name ∈ vars.keys :=
  List.mem_map.2 ⟨_, Dict.mem_of_get? h, rfl⟩

theorem Grounded.mem_reachable {vars : Vars} {name : String} (h : Grounded vars name) :
    name ∈ reachable vars name := by
  obtain ⟨⟨v, hv⟩, -⟩ := h name .refl
  simp only [reachable, Finset.mem_filter, List.mem_toFinset]
  exact ⟨mem_keys_of_get? hv, .refl⟩

theorem Grounded.reachable_ssubset {vars : Vars} {name other : String} (h : Grounded vars name)
    (hr : Refers vars name other) : reachable vars other ⊂ reachable vars name := by
  have hsub : reachable vars other ⊆ reachable vars name := by
    intro x hx
    simp only [reachable, Finset.mem_filter] at hx ⊢
    exact ⟨hx.1, hx.2.head hr⟩
  refine Finset.ssubset_iff_subset_ne.2 ⟨hsub, fun he => ?_⟩
  have hm : name ∈ reachable vars other := he ▸ h.mem_reachable
  simp only [reachable, Finset.mem_filter] at hm
  exact (h name .refl).2 (TransGen.head' hr hm.2)

/-- **Without cycles the depth is at most the number of variables.** -/
theorem within_of_acyclic {vars : Vars} {n : Nat} {pieces : List Piece}
    (h : ∀ name, .reference name ∈ pieces → Grounded vars (String.ofList name) ∧
      (reachable vars (String.ofList name)).card ≤ n) : Within vars n pieces := by
  induction n generalizing pieces with
  | zero =>
    intro name hm
    obtain ⟨hg, hcard⟩ := h name hm
    exact Finset.card_ne_zero_of_mem hg.mem_reachable (Nat.le_zero.1 hcard)
  | succ n ih =>
    intro name hm
    obtain ⟨hg, hcard⟩ := h name hm
    obtain ⟨⟨v, hv⟩, -⟩ := hg _ .refl
    refine ⟨v, hv, ih fun other hother => ?_⟩
    -- What the other name leads to no longer has this one, so the bound goes down with the depth.
    have hr : Refers vars (String.ofList name) (String.ofList other) := ⟨v, hv, mem_names hother⟩
    have hlt := Finset.card_lt_card (hg.reachable_ssubset hr)
    exact ⟨hg.of_refers hr, by omega⟩

open Classical in
theorem card_reachable_le (vars : Vars) (name : String) :
    (reachable vars name).card ≤ vars.length := by
  calc (reachable vars name).card
      ≤ vars.keys.toFinset.card := Finset.card_filter_le _ _
    _ ≤ vars.keys.length := List.toFinset_card_le _
    _ = vars.length := List.length_map ..

end Bound

theorem settle_isOk_iff {vars : Vars} (hv : WellFormedVars vars) {pieces : List Piece}
    (hs : ∀ p ∈ pieces, p.Sound) :
    (∃ out, settle vars vars.length (pieces.flatMap Piece.source) = .ok out) ↔
      ∀ name ∈ pieces.filterMap Piece.name?, Grounded vars name := by
  constructor
  · rintro ⟨out, h⟩
    exact (expands_of_settle hv hs h).grounded
  · intro h
    refine settle_of_within hv hs (within_of_acyclic fun name hm => ?_)
    exact ⟨h _ (mem_names hm), card_reachable_le vars _⟩

end Substitution

open Substitution

theorem substituteText_eq_ok {vars : Vars} {s t : String} :
    substituteText vars s = .ok t ↔
      ∃ cs, settle vars vars.length s.toList = .ok cs ∧
        t = String.ofList (Substitution.decide cs) := by
  unfold substituteText
  cases settle vars vars.length s.toList with
  | ok cs => simp [Except.map, eq_comm]
  | error e => simp [Except.map]

/-- **Substitution is recursive expansion.** A text settles exactly when each variable that can be reached from it is
defined and none leads back to itself, and then to its one expansion, with its conditionals decided. -/
theorem substituteText_settles (vars : Vars) (s : String) (hs : WellFormed s.toList)
    (hv : ∀ name v, vars.get? name = some v → WellFormed v.varText.toList) :
    ((∃ t, substituteText vars s = .ok t) ↔
      ∀ name, Reaches vars s.toList name →
        (∃ v, vars.get? name = some v) ∧ ¬ Relation.TransGen (Refers vars) name name) ∧
    (∀ t, substituteText vars s = .ok t →
      ∃ out, Expands vars (piecesOf s.toList) out ∧
        (∀ other, Expands vars (piecesOf s.toList) other → other = out) ∧
        t = String.ofList (Substitution.decide out)) ∧
    ∀ e, substituteText vars s = .error e → ∃ names text, e = .unresolved names text := by
  have hsource := hs.source_piecesOf
  refine ⟨?_, fun t ht => ?_, fun e he => ?_⟩
  · have hok := settle_isOk_iff hv hs.sound
    rw [hsource] at hok
    have hlift : (∃ t, substituteText vars s = .ok t) ↔
        ∃ cs, settle vars vars.length s.toList = .ok cs := by
      simp only [substituteText_eq_ok]
      exact ⟨fun ⟨_, cs, hcs, _⟩ => ⟨cs, hcs⟩, fun ⟨cs, hcs⟩ => ⟨_, cs, hcs, rfl⟩⟩
    rw [hlift, hok]
    constructor
    · rintro h name ⟨root, hroot, hreach⟩
      exact h root hroot name hreach
    · exact fun h root hroot name hreach => h name ⟨root, hroot, hreach⟩
  · obtain ⟨cs, hcs, rfl⟩ := substituteText_eq_ok.1 ht
    rw [← hsource] at hcs
    have hexpands := expands_of_settle hv hs.sound hcs
    exact ⟨cs, hexpands, fun other h => h.unique hexpands, rfl⟩
  · unfold substituteText at he
    cases h : settle vars vars.length s.toList with
    | ok cs => simp [h, Except.map] at he
    | error e' =>
      rw [h] at he
      cases he
      obtain ⟨rest, rfl⟩ := settle_eq_error h
      exact ⟨_, _, rfl⟩

/-- A variable that refers to another one. -/
def familyVars : Vars := [("chip", .str "$\x7bfamily\x7d-07"), ("family", .str "STM32")]

theorem substituteText_settles_familyVars :
    WellFormed "$\x7bchip\x7dxx".toList ∧
      (∀ name v, familyVars.get? name = some v → WellFormed v.varText.toList) ∧
      ∃ out, Expands familyVars (piecesOf "$\x7bchip\x7dxx".toList) out ∧
        "STM32-07xx" = String.ofList (Substitution.decide out) := by
  have hs : WellFormed "$\x7bchip\x7dxx".toList :=
    ⟨[.reference "chip".toList, .plain 'x', .plain 'x'], by decide, rfl⟩
  have hv : ∀ name v, familyVars.get? name = some v → WellFormed v.varText.toList := by
    intro name v h
    have hm := Dict.mem_of_get? h
    simp only [familyVars, List.mem_cons, Prod.mk.injEq, List.not_mem_nil, or_false] at hm
    rcases hm with ⟨-, rfl⟩ | ⟨-, rfl⟩
    · exact ⟨.reference "family".toList :: "-07".toList.map .plain, by decide, rfl⟩
    · exact ⟨"STM32".toList.map .plain, by decide, rfl⟩
  have ht : substituteText familyVars "$\x7bchip\x7dxx" = .ok "STM32-07xx" := by
    refine substituteText_eq_ok.2 ⟨"STM32-07xx".toList, rfl, ?_⟩
    simp [Substitution.decide]
  obtain ⟨out, hout, -, ho⟩ := (substituteText_settles familyVars _ hs hv).2.1 _ ht
  exact ⟨hs, hv, out, hout, ho⟩

end BoardAtlas
