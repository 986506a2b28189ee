import BoardAtlas.Proofs.Json.Parsing
import BoardAtlas.Proofs.Manifest.Distinct

/-!
# Values written and read again

The compact text of a value is read as the same value: the same tree with the same texts and the same order of keys.
Of numbers only this is taken for granted, that the text of each is read as a number equal to it; a number that is
not finite has no such text.

* `Value.depth`, `Value.numbers`: the nesting of a value and its numbers;
* `Value.Alike`: the same tree up to equality of numbers;
* `reads_value`, `reads_items`, `reads_members`: what is read from the text of a value, part by part;
* **`Value.read_compact`**: a value written and read again.
-/

namespace BoardAtlas.Value

mutual

/-- How deep arrays and objects are nested. -/
def depth : Value → Nat
  | .list items => depthItems items + 1
  | .obj fields => depthMembers fields + 1
  | _ => 0

/-- The depth of the deepest item. -/
def depthItems : List Value → Nat
  | [] => 0
  | v :: rest => max (depth v) (depthItems rest)

/-- The depth of the deepest member. -/
def depthMembers : List (String × Value) → Nat
  | [] => 0
  | (_, v) :: rest => max (depth v) (depthMembers rest)

end

mutual

/-- The numbers in a value. -/
def numbers : Value → List Float
  | .num x => [x]
  | .list items => numbersOfItems items
  | .obj fields => numbersOfMembers fields
  | _ => []

/-- The numbers in items. -/
def numbersOfItems : List Value → List Float
  | [] => []
  | v :: rest => numbers v ++ numbersOfItems rest

/-- The numbers in the values of members. -/
def numbersOfMembers : List (String × Value) → List Float
  | [] => []
  | (_, v) :: rest => numbers v ++ numbersOfMembers rest

end

mutual

/-- The same tree with the same order of keys. Numbers are compared as numbers, so that there is one zero. -/
def Alike : Value → Value → Prop
  | .null, .null => True
  | .bool a, .bool b => a = b
  | .num x, .num y => (x == y) = true
  | .str s, .str t => s = t
  | .list items, .list items' => AlikeItems items items'
  | .obj fields, .obj fields' => AlikeMembers fields fields'
  | _, _ => False

/-- Items that are alike one by one. -/
def AlikeItems : List Value → List Value → Prop
  | [], [] => True
  | v :: rest, v' :: rest' => Alike v v' ∧ AlikeItems rest rest'
  | _, _ => False

/-- The same keys in the same order with values that are alike. -/
def AlikeMembers : List (String × Value) → List (String × Value) → Prop
  | [], [] => True
  | (k, v) :: rest, (k', v') :: rest' => k = k' ∧ Alike v v' ∧ AlikeMembers rest rest'
  | _, _ => False

end

/-- The text of a number is read as a number equal to it. -/
def ReadsBack (x : Float) : Prop :=
  ∃ j y, Json.number? (numberJson x).compactChars = some (j, []) ∧ ofJson j = .num y ∧ (y == x) = true

theorem keys_of_alike {members : List (String × Json)} {fields : List (String × Value)}
    (h : AlikeMembers (membersOfJson members) fields) : Dict.keys members = Dict.keys fields := by
  induction members generalizing fields with
  | nil =>
    cases fields with
    | nil => rfl
    | cons e fields => cases h
  | cons m members ih =>
    obtain ⟨k, w⟩ := m
    cases fields with
    | nil => cases h
    | cons e fields =>
      obtain ⟨k', v⟩ := e
      obtain ⟨rfl, -, hrest⟩ : k = k' ∧ (ofJson w).Alike v ∧ AlikeMembers (membersOfJson members) fields := h
      exact congrArg (k :: ·) (ih hrest)

mutual

/-- **The text of a value** is read as a value like it, where there is room for its nesting. -/
theorem reads_value {room : Nat} : (v : Value) → v.Distinct → v.depth ≤ room →
    (∀ x ∈ v.numbers, ReadsBack x) →
    ∃ w, Json.Reads room v.toJson.compactChars w ∧ (ofJson w).Alike v
  | .null, _, hdepth, _ => ⟨.null, Json.reads_null.mono hdepth, trivial⟩
  | .bool b, _, hdepth, _ => ⟨.bool b, (Json.reads_bool b).mono hdepth, rfl⟩
  | .num x, _, hdepth, hnumbers => by
    obtain ⟨j, y, hread, hj, hy⟩ := hnumbers x List.mem_cons_self
    refine ⟨j, (Json.reads_number hread).mono hdepth, ?_⟩
    rw [hj]
    exact hy
  | .str s, _, hdepth, _ => ⟨.str s, (Json.reads_text s).mono hdepth, rfl⟩
  | .list items, hkeys, hdepth, hnumbers => by
    -- the container takes one level of the room, its parts have the others
    obtain ⟨room, rfl⟩ := Nat.exists_eq_succ_of_ne_zero (Nat.ne_zero_of_lt hdepth)
    obtain ⟨ws, hreads, halike⟩ :=
      reads_items items hkeys (Nat.le_of_succ_le_succ hdepth) hnumbers
    exact ⟨.arr ws, Json.Reads.array hreads, halike⟩
  | .obj fields, hkeys, hdepth, hnumbers => by
    obtain ⟨room, rfl⟩ := Nat.exists_eq_succ_of_ne_zero (Nat.ne_zero_of_lt hdepth)
    obtain ⟨ms, hreads, halike⟩ :=
      reads_members fields hkeys.2 (Nat.le_of_succ_le_succ hdepth) hnumbers
    have hdistinct : Dict.Distinct ms := by
      rw [Dict.Distinct, keys_of_alike halike]
      exact hkeys.1
    exact ⟨.obj ms, Json.Reads.object hdistinct hreads, halike⟩

theorem reads_items {room : Nat} : (items : List Value) → DistinctItems items →
    depthItems items ≤ room → (∀ x ∈ numbersOfItems items, ReadsBack x) →
    ∃ ws, List.Forall₂ (Json.Reads room) (Json.compactItems (itemsToJson items)) ws ∧
      AlikeItems (itemsOfJson ws) items
  | [], _, _, _ => ⟨[], .nil, trivial⟩
  | v :: rest, hkeys, hdepth, hnumbers => by
    obtain ⟨hv, hrest⟩ := List.forall_mem_append.1 hnumbers
    obtain ⟨hdepthv, hdepthrest⟩ := Nat.max_le.1 hdepth
    obtain ⟨w, hread, hw⟩ := reads_value v hkeys.1 hdepthv hv
    obtain ⟨ws, hreads, hws⟩ := reads_items rest hkeys.2 hdepthrest hrest
    exact ⟨w :: ws, .cons hread hreads, hw, hws⟩

theorem reads_members {room : Nat} : (fields : List (String × Value)) → DistinctMembers fields →
    depthMembers fields ≤ room → (∀ x ∈ numbersOfMembers fields, ReadsBack x) →
    ∃ ms, List.Forall₂ (Json.ReadsMember room) (Json.compactMembers (membersToJson fields)) ms ∧
      AlikeMembers (membersOfJson ms) fields
  | [], _, _, _ => ⟨[], .nil, trivial⟩
  | (k, v) :: rest, hkeys, hdepth, hnumbers => by
    obtain ⟨hv, hrest⟩ := List.forall_mem_append.1 hnumbers
    obtain ⟨hdepthv, hdepthrest⟩ := Nat.max_le.1 hdepth
    obtain ⟨w, hread, hw⟩ := reads_value v hkeys.1 hdepthv hv
    obtain ⟨ms, hreads, hms⟩ := reads_members rest hkeys.2 hdepthrest hrest
    exact ⟨(k, w) :: ms, .cons ⟨_, rfl, hread⟩ hreads, rfl, hw, hms⟩

end

/-- **A value survives being written and read**: with all keys of each object different, at most 127 arrays and
objects inside one another, and numbers whose texts are read back, its compact text is read, and what is read is the
same tree with the same texts and the same order of keys. -/
theorem read_compact (v : Value) (hkeys : v.Distinct) (hdepth : v.depth ≤ 127)
    (hnumbers : ∀ x ∈ v.numbers, ReadsBack x) :
    ∃ w, (Json.read v.compact).map ofJson = .ok w ∧ w.Alike v := by
  obtain ⟨w, hread, halike⟩ := reads_value v hkeys hdepth hnumbers
  have htext : Json.Reads Json.depthLimit v.compact.toList w := by
    rw [compact, Json.compact, String.toList_ofList]
    exact hread
  refine ⟨ofJson w, ?_, halike⟩
  rw [htext.read_eq]
  rfl

/-- Texts of every kind, nested values, and two numbers. -/
def mixedValue : Value :=
  .obj [("quote \" and \\", .str "a\tb\n\x01 \x7f é 😀"), ("", .list [.num 2.5, .num (-0.0), .null, .list []]),
    ("a", .obj [("a", .bool true), ("", .obj [])])]

theorem read_compact_mixedValue :
    ∃ w, (Json.read mixedValue.compact).map ofJson = .ok w ∧ w.Alike mixedValue := by
  have hkeys : mixedValue.Distinct := by
    simp [mixedValue, Distinct, DistinctMembers, DistinctItems, Dict.Distinct, Dict.keys]
  have hhalves : ReadsBack 2.5 := by
    have htext : (numberJson 2.5).compactChars = ['2', '.', '5'] := by decide +kernel
    refine ⟨.float 2.5, 2.5, ?_, rfl, by decide⟩
    rw [htext]
    rfl
  have hzero : ReadsBack (-0.0) := by
    have htext : (numberJson (-0.0)).compactChars = ['0'] := by decide +kernel
    refine ⟨.int 0, Binary64.ofInt 0, ?_, rfl, by decide +kernel⟩
    rw [htext]
    rfl
  have hnumbers : ∀ x ∈ mixedValue.numbers, ReadsBack x :=
    List.forall_mem_cons.2 ⟨hhalves, List.forall_mem_cons.2 ⟨hzero, List.forall_mem_nil _⟩⟩
  exact read_compact mixedValue hkeys (by decide) hnumbers

end BoardAtlas.Value
