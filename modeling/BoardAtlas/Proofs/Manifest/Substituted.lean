import BoardAtlas.Proofs.Manifest.Conditionals
import BoardAtlas.Proofs.Writes

/-!
# Substitution in a tree

With variables, substitution in a value is substitution in each of its texts, in the order in which they are written,
a key before its value. The first text that cannot be substituted decides; if there is none, the value keeps its shape
up to keys that have become equal.

* `substituteTouched_eq`: leaving texts alone in which nothing asks for substitution changes nothing;
* `Value.texts`: the texts of a value in the order of the document;
* `fault?_substituteAll`: how substitution fails;
* `Substituted`, `substituteAll_eq_ok_iff`: what it gives, node by node;
* **`substituteValue_texts`**: both for a value.
-/

namespace BoardAtlas

/-- **Texts in which nothing asks for substitution** are what substitution makes of them. -/
theorem substituteTouched_eq (vars : Vars) (s : String) : substituteTouched vars s = substituteText vars s := by
  rw [substituteTouched]
  split
  · rfl
  · next h =>
    obtain ⟨hopens, hcond⟩ := Substitution.isTouched_eq_false.1 (Bool.eq_false_iff.2 h)
    have hdecide := Substitution.decide_lead hcond []
    rw [List.append_nil, Substitution.decide, List.append_nil] at hdecide
    rw [substituteText, Substitution.settle_of_not_opens vars _ hopens]
    change _ = Except.ok (String.ofList (Substitution.decide s.toList))
    rw [hdecide, String.ofList_toList]

/-! ## The texts of a value -/

namespace Value

mutual

/-- The texts of a value in the order of the document: its strings and its keys, a key before its value. -/
def texts : Value → List String
  | .str s => [s]
  | .list items => textsOfItems items
  | .obj fields => textsOfMembers fields
  | _ => []

/-- The texts of items. -/
def textsOfItems : List Value → List String
  | [] => []
  | v :: rest => texts v ++ textsOfItems rest

/-- The texts of members. -/
def textsOfMembers : List (String × Value) → List String
  | [] => []
  | (k, v) :: rest => k :: (texts v ++ textsOfMembers rest)

end

end Value

/-! ## How substitution fails -/

section Faults

variable (vars : Vars)

mutual

/-- **A value fails with its first text that fails.** -/
theorem fault?_substituteAll : (v : Value) →
    Except.fault? (substituteAll vars v) = Except.firstFault? (substituteText vars) v.texts
  | .null => rfl
  | .bool _ => rfl
  | .num _ => rfl
  | .str s => by
    rw [substituteAll, Except.fault?_map, substituteTouched_eq, Value.texts, Except.firstFault?_cons]
    exact (Option.or_none).symm
  | .list items => by
    rw [substituteAll, Except.fault?_map]
    exact fault?_substituteItems items
  | .obj fields => by
    rw [substituteAll, Except.fault?_map]
    exact fault?_substituteMembers [] fields

theorem fault?_substituteItems : (items : List Value) →
    Except.fault? (substituteItems vars items) = Except.firstFault? (substituteText vars) (Value.textsOfItems items)
  | [] => rfl
  | v :: rest => by
    rw [substituteItems, Value.textsOfItems, Except.firstFault?_append, ← fault?_substituteAll v,
      ← fault?_substituteItems rest]
    refine Except.fault?_bind fun w => ?_
    cases substituteItems vars rest <;> rfl

theorem fault?_substituteMembers (done : Dict Value) : (fields : List (String × Value)) →
    Except.fault? (substituteMembers vars done fields) =
      Except.firstFault? (substituteText vars) (Value.textsOfMembers fields)
  | [] => rfl
  | (k, v) :: rest => by
    rw [substituteMembers, Value.textsOfMembers, Except.firstFault?_cons, Except.firstFault?_append,
      ← fault?_substituteAll v, ← substituteTouched_eq]
    refine Except.fault?_bind fun k' => Except.fault?_bind fun w => ?_
    exact fault?_substituteMembers (done.insert k' w) rest

end

end Faults

/-! ## What substitution gives -/

/-- **A value and what its texts make of it**: strings and keys are substituted, other leaves stay, items stay in their
places, and the members are written one after the other with their new keys. -/
inductive Substituted (vars : Vars) : Value → Value → Prop
  | null : Substituted vars .null .null
  | bool (b : Bool) : Substituted vars (.bool b) (.bool b)
  | num (x : Float) : Substituted vars (.num x) (.num x)
  | str {s t : String} (text : substituteText vars s = .ok t) : Substituted vars (.str s) (.str t)
  | list {items out : List Value} (each : List.Forall₂ (Substituted vars) items out) :
    Substituted vars (.list items) (.list out)
  | obj {fields entries : Dict Value}
    (keys : List.Forall₂ (fun k k' => substituteText vars k = .ok k') fields.keys entries.keys)
    (values : List.Forall₂ (Substituted vars) fields.values entries.values) :
    Substituted vars (.obj fields) (.obj (Dict.ofList entries))

section Results

variable {vars : Vars}

mutual

/-- **Substitution in a value succeeds with what its texts make of it.** -/
theorem substituteAll_eq_ok_iff : (v : Value) → (w : Value) → (substituteAll vars v = .ok w ↔ Substituted vars v w)
  | .null, w => by
    constructor
    · rintro ⟨⟩
      exact .null
    · rintro ⟨⟩
      rfl
  | .bool b, w => by
    constructor
    · rintro ⟨⟩
      exact .bool b
    · rintro ⟨⟩
      rfl
  | .num x, w => by
    constructor
    · rintro ⟨⟩
      exact .num x
    · rintro ⟨⟩
      rfl
  | .str s, w => by
    rw [substituteAll, Except.map_eq_ok, substituteTouched_eq]
    constructor
    · rintro ⟨t, ht, rfl⟩
      exact .str ht
    · rintro ⟨⟩
      exact ⟨_, ‹_›, rfl⟩
  | .list items, w => by
    rw [substituteAll, Except.map_eq_ok]
    constructor
    · rintro ⟨out, hout, rfl⟩
      exact .list ((substituteItems_eq_ok_iff items out).1 hout)
    · rintro ⟨⟩
      exact ⟨_, (substituteItems_eq_ok_iff items _).2 ‹_›, rfl⟩
  | .obj fields, w => by
    rw [substituteAll, Except.map_eq_ok]
    constructor
    · rintro ⟨out, hout, rfl⟩
      obtain ⟨entries, hkeys, hvalues, rfl⟩ := (substituteMembers_eq_ok_iff [] fields out).1 hout
      exact .obj hkeys hvalues
    · intro h
      cases h with
      | obj keys values => exact ⟨_, (substituteMembers_eq_ok_iff [] fields _).2 ⟨_, keys, values, rfl⟩, rfl⟩

theorem substituteItems_eq_ok_iff : (items : List Value) → (out : List Value) →
    (substituteItems vars items = .ok out ↔ List.Forall₂ (Substituted vars) items out)
  | [], out => by
    constructor
    · rintro ⟨⟩
      exact .nil
    · rintro ⟨⟩
      rfl
  | v :: rest, out => by
    rw [substituteItems, Except.bind_eq_ok]
    constructor
    · rintro ⟨w, hw, h⟩
      obtain ⟨later, hlater, ⟨⟩⟩ := Except.bind_eq_ok.1 h
      exact .cons ((substituteAll_eq_ok_iff v w).1 hw) ((substituteItems_eq_ok_iff rest later).1 hlater)
    · intro h
      cases h with
      | cons hw hlater =>
        exact ⟨_, (substituteAll_eq_ok_iff v _).2 hw,
          Except.bind_eq_ok.2 ⟨_, (substituteItems_eq_ok_iff rest _).2 hlater, rfl⟩⟩

theorem substituteMembers_eq_ok_iff (done : Dict Value) : (fields : Dict Value) → (out : Dict Value) →
    (substituteMembers vars done fields = .ok out ↔
      ∃ entries : Dict Value, List.Forall₂ (fun k k' => substituteText vars k = .ok k') fields.keys entries.keys ∧
        List.Forall₂ (Substituted vars) fields.values entries.values ∧ out = done.extend entries)
  | [], out => by
    constructor
    · rintro ⟨⟩
      exact ⟨[], .nil, .nil, rfl⟩
    · rintro ⟨entries, hkeys, -, rfl⟩
      obtain rfl : entries = [] := List.map_eq_nil_iff.1 (List.forall₂_nil_left_iff.1 hkeys)
      rfl
  | (k, v) :: rest, out => by
    rw [substituteMembers, Except.bind_eq_ok]
    constructor
    · rintro ⟨k', hk, h⟩
      obtain ⟨w, hw, h⟩ := Except.bind_eq_ok.1 h
      obtain ⟨entries, hkeys, hvalues, rfl⟩ := (substituteMembers_eq_ok_iff (done.insert k' w) rest out).1 h
      rw [substituteTouched_eq] at hk
      exact ⟨(k', w) :: entries, .cons hk hkeys, .cons ((substituteAll_eq_ok_iff v w).1 hw) hvalues, rfl⟩
    · rintro ⟨entries, hkeys, hvalues, rfl⟩
      cases entries with
      | nil => cases hkeys
      | cons e entries =>
        obtain ⟨k', w⟩ := e
        obtain ⟨hk, hkeys⟩ := List.forall₂_cons.1 hkeys
        obtain ⟨hw, hvalues⟩ := List.forall₂_cons.1 hvalues
        refine ⟨k', (substituteTouched_eq vars k).trans hk, ?_⟩
        refine Except.bind_eq_ok.2 ⟨w, (substituteAll_eq_ok_iff v w).2 hw, ?_⟩
        exact (substituteMembers_eq_ok_iff (done.insert k' w) rest _).2 ⟨entries, hkeys, hvalues, rfl⟩

end

/-- **An object keeps its size** exactly when no two of its keys become equal. -/
theorem Substituted.length_eq_iff {fields out : Dict Value} (h : Substituted vars (.obj fields) (.obj out)) :
    out.length = fields.length ↔ (fields.keys.map (substituteText vars)).Nodup := by
  cases h with
  | @obj _ entries keys values =>
    have hlength : entries.length = fields.length := by
      have := keys.length_eq
      rw [Dict.keys, Dict.keys, List.length_map, List.length_map] at this
      exact this.symm
    have hkeys : fields.keys.map (substituteText vars) = entries.keys.map Except.ok :=
      List.forall₂_eq_eq_eq ▸ List.forall₂_map_left_iff.2 (List.forall₂_map_right_iff.2 keys)
    rw [hkeys, List.nodup_map_iff fun _ _ => Except.ok.inj, ← hlength]
    exact Dict.length_ofList_eq_iff entries

end Results

/-- **Substitution in a value is substitution in its texts.** It fails as the first string or key does that cannot be
substituted, in the order of the document. An object keeps its size exactly when no two of its keys become equal. -/
theorem substituteValue_texts (vars : Vars) (hvars : vars ≠ []) (v : Value) :
    ((∃ w, substituteValue vars v = .ok w) ↔ ∀ s ∈ v.texts, ∃ t, substituteText vars s = .ok t) ∧
    (∀ e, substituteValue vars v = .error e ↔
      ∃ before s after, v.texts = before ++ s :: after ∧ (∀ b ∈ before, ∃ t, substituteText vars b = .ok t) ∧
        substituteText vars s = .error e) ∧
    (∀ w, substituteValue vars v = .ok w ↔ Substituted vars v w) ∧
    (∀ fields out : Dict Value, Substituted vars (.obj fields) (.obj out) →
      (out.length = fields.length ↔ (fields.keys.map (substituteText vars)).Nodup)) ∧
    ∀ s, substituteTouched vars s = substituteText vars s := by
  have hall : substituteValue vars v = substituteAll vars v := by
    rw [substituteValue, if_neg (by simpa using hvars)]
  have hfault := fault?_substituteAll vars v
  rw [hall]
  refine ⟨?_, fun e => ?_, fun w => substituteAll_eq_ok_iff v w, fun _ _ => Substituted.length_eq_iff,
    substituteTouched_eq vars⟩
  · rw [← Except.fault?_eq_none_iff, hfault, Except.firstFault?_eq_none_iff]
  · rw [← Except.fault?_eq_some_iff, hfault, Except.firstFault?_eq_some_iff]

/-- One variable. -/
def sideVars : Vars := [("SIDE", .str "left")]

/-- Two keys that become equal. -/
def sidedPad : Dict Value :=
  [("$\x7bSIDE\x7d", .bool true), ("left", .list [.str "<$\x7bSIDE\x7d: left :yes:no>", .null])]

/-- A key that cannot be substituted, before a value that cannot either. -/
def brokenPad : Value := .list [.str "$\x7bSIDE\x7d", .obj [("$\x7bEDGE\x7d", .str "$\x7bGAP\x7d")]]

theorem substituteValue_texts_sidedPad :
    sideVars ≠ [] ∧ substituteValue sideVars (.obj sidedPad) = .ok (.obj [("left", .list [.str "yes", .null])]) ∧
      ¬ (sidedPad.keys.map (substituteText sideVars)).Nodup ∧
      substituteValue sideVars brokenPad = .error (.unresolved ["EDGE"] "$\x7bEDGE\x7d") := by
  have hvars : sideVars ≠ [] := by simp [sideVars]
  obtain ⟨-, -, hok, hsize, -⟩ := substituteValue_texts sideVars hvars (.obj sidedPad)
  have hside : substituteText sideVars "$\x7bSIDE\x7d" = .ok "left" := by decide +kernel
  have hleft : substituteText sideVars "left" = .ok "left" := by decide +kernel
  have hyes : substituteText sideVars "<$\x7bSIDE\x7d: left :yes:no>" = .ok "yes" := by decide +kernel
  let entries : Dict Value := [("left", .bool true), ("left", .list [.str "yes", .null])]
  have hpad : Substituted sideVars (.obj sidedPad) (.obj (Dict.ofList entries)) :=
    .obj (.cons hside (.cons hleft .nil))
      (.cons (.bool true) (.cons (.list (.cons (.str hyes) (.cons .null .nil))) .nil))
  refine ⟨hvars, (hok _).2 hpad, fun hnodup => ?_, ?_⟩
  · exact absurd ((hsize _ _ hpad).2 hnodup) (by decide)
  · refine ((substituteValue_texts sideVars hvars brokenPad).2.1 _).2
      ⟨["$\x7bSIDE\x7d"], "$\x7bEDGE\x7d", ["$\x7bGAP\x7d"], rfl, ?_, by decide +kernel⟩
    exact List.forall_mem_singleton.2 ⟨"left", hside⟩

end BoardAtlas
