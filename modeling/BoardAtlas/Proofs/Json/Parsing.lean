import BoardAtlas.Proofs.Json.Lexing

/-!
# Reading printed documents

The tokens of a printed document bring the reader from a state that expects a value to the state in which that
document is finished, on any stack that leaves room for its nesting. Arrays and objects are built from their parts.

* `Parses`: tokens that are read as a document;
* `Container`, `Container.parses`: arrays and objects, from parts that are read one after the other;
* `Reads`, `Reads.array`, `Reads.object`: characters that are read as a document;
* **`Reads.read_eq`**: such characters are a text of that document.
-/

namespace BoardAtlas.Json

/-! ## Tokens -/

/-- A value may come next. -/
def Expected.AllowsValue (e : Expected) : Prop := e = .value ∨ e = .itemOrEnd

/-- Where a value may come and so many containers may still be opened, the tokens are read as the document. -/
def Parses (room : Nat) (ts : List Token) (w : Json) : Prop :=
  ∀ (e : Expected) (stack : List Open), e.AllowsValue → stack.length + room ≤ depthLimit →
    ts.foldlM State.step ⟨stack, e⟩ = State.finish w stack

theorem Parses.mono {room room' : Nat} {ts : List Token} {w : Json} (h : Parses room ts w)
    (hroom : room ≤ room') : Parses room' ts w :=
  fun e stack he hstack => h e stack he (Nat.le_trans (Nat.add_le_add_left hroom _) hstack)

theorem parses_leaf (w : Json) : Parses 0 [.leaf w] w := by
  rintro e stack (rfl | rfl) -
  · exact bind_pure _
  · exact bind_pure _

theorem parses_text (s : String) : Parses 0 [.text s] (.str s) := by
  rintro e stack (rfl | rfl) -
  · exact bind_pure _
  · exact bind_pure _

/-! ## Arrays and objects -/

/-- A kind of container: how it is opened, how its parts go on after a comma, and what it is when it is closed. -/
structure Container (α : Type) where
  holding : List α → Open
  before : Token
  after : Token
  first : Expected
  next : Expected
  finished : List α → Json
  step_before {e : Expected} {stack : List Open} (he : e.AllowsValue)
    (hroom : stack.length < depthLimit) :
    State.step ⟨stack, e⟩ before = some ⟨holding [] :: stack, first⟩
  step_comma (acc : List α) (stack : List Open) :
    State.step ⟨holding acc :: stack, .commaOrEnd⟩ .comma = some ⟨holding acc :: stack, next⟩
  step_after {e : Expected} (he : e = first ∨ e = .commaOrEnd) (acc : List α) (stack : List Open) :
    State.step ⟨holding acc :: stack, e⟩ after = State.finish (finished acc.reverse) stack

/-- Arrays, whose parts are values. -/
def Container.array : Container Json where
  holding := .array
  before := .openArray
  after := .closeArray
  first := .itemOrEnd
  next := .value
  finished := .arr
  step_before := by
    rintro e stack (rfl | rfl) hroom
    · exact if_pos hroom
    · exact if_pos hroom
  step_comma _ _ := rfl
  step_after := by
    rintro e (rfl | rfl) items stack
    · exact Option.orElse_eq_or.trans Option.or_none
    · rfl

/-- Objects, whose parts are keys with values. -/
def Container.object : Container (String × Json) where
  holding := .object
  before := .openObject
  after := .closeObject
  first := .keyOrEnd
  next := .key
  finished members := .obj (Dict.ofList members)
  step_before := by
    rintro e stack (rfl | rfl) hroom
    · exact if_pos hroom
    · exact if_pos hroom
  step_comma _ _ := rfl
  step_after := by
    rintro e (rfl | rfl) members stack
    · exact Option.orElse_eq_or.trans Option.or_none
    · rfl

namespace Container

variable {α : Type} (c : Container α) {room : Nat} {tss : List (List Token)} {xs : List α}

/-- In the container the tokens are read as one part more. -/
def ReadsPart (room : Nat) (ts : List Token) (x : α) : Prop :=
  ∀ (acc : List α) (stack : List Open) (e : Expected), e = c.first ∨ e = c.next →
    stack.length + (room + 1) ≤ depthLimit →
    ts.foldlM State.step ⟨c.holding acc :: stack, e⟩ = some ⟨c.holding (x :: acc) :: stack, .commaOrEnd⟩

/-- **The parts of a container**, one after the other with commas between them. -/
theorem foldlM_parts (h : List.Forall₂ (c.ReadsPart room) tss xs) (hne : xs ≠ []) (acc : List α)
    {stack : List Open} {e : Expected} (he : e = c.first ∨ e = c.next)
    (hroom : stack.length + (room + 1) ≤ depthLimit) :
    ([Token.comma].intercalate tss).foldlM State.step ⟨c.holding acc :: stack, e⟩ =
      some ⟨c.holding (xs.reverse ++ acc) :: stack, .commaOrEnd⟩ := by
  induction h generalizing acc e with
  | nil => exact absurd rfl hne
  | @cons ts x tss xs hpart hparts ih =>
    have hfirst := hpart acc stack e he hroom
    cases hparts with
    | nil =>
      rw [List.intercalate_singleton]
      exact hfirst
    | @cons us y uss ys hsecond hrest =>
      have htail := ih (List.cons_ne_nil _ _) (x :: acc) (Or.inr rfl)
      rw [List.intercalate_cons_cons, List.append_assoc, List.foldlM_append, hfirst]
      change (State.step _ .comma).bind _ = _
      rw [c.step_comma, List.reverse_cons, List.append_assoc]
      exact htail

/-- **A container** whose parts are read one by one. -/
theorem parses (h : List.Forall₂ (c.ReadsPart room) tss xs) :
    Parses (room + 1) (c.before :: [Token.comma].intercalate tss ++ [c.after]) (c.finished xs) := by
  intro e stack he hroom
  have hlt : stack.length < depthLimit := by omega
  rw [List.cons_append, List.foldlM_cons, c.step_before he hlt]
  change ([Token.comma].intercalate tss ++ [c.after]).foldlM State.step _ = _
  -- an empty container is closed where its first part may come, any other one behind a part
  cases xs with
  | nil =>
    cases h
    rw [List.intercalate_nil, List.nil_append, List.foldlM_cons, c.step_after (Or.inl rfl)]
    exact bind_pure _
  | cons x xs =>
    have hparts := c.foldlM_parts h (List.cons_ne_nil _ _) [] (Or.inl rfl) hroom
    rw [List.foldlM_append, hparts, List.append_nil]
    change [c.after].foldlM State.step _ = _
    rw [List.foldlM_cons, c.step_after (Or.inr rfl), List.reverse_reverse]
    exact bind_pure _

theorem readsPart_array {ts : List Token} {w : Json} (h : Parses room ts w) :
    array.ReadsPart room ts w := by
  intro acc stack e he hroom
  have hroom' : (Open.array acc :: stack).length + room ≤ depthLimit := by
    rw [List.length_cons]
    omega
  exact h e (.array acc :: stack) he.symm hroom'

theorem readsPart_object {ts : List Token} {w : Json} (h : Parses room ts w) (key : String) :
    object.ReadsPart room (.text key :: .colon :: ts) (key, w) := by
  intro acc stack e he hroom
  have hroom' : (Open.member acc key :: stack).length + room ≤ depthLimit := by
    rw [List.length_cons]
    omega
  have hvalue := h .value (.member acc key :: stack) (Or.inl rfl) hroom'
  rcases he with rfl | rfl
  · exact hvalue
  · exact hvalue

end Container

/-! ## Characters -/

/-- Where so many containers may still be opened, the characters are read as the document. -/
def Reads (room : Nat) (cs : List Char) (w : Json) : Prop := ∃ ts, Spells cs ts ∧ Parses room ts w

theorem Reads.mono {room room' : Nat} {cs : List Char} {w : Json} (h : Reads room cs w)
    (hroom : room ≤ room') : Reads room' cs w := by
  obtain ⟨ts, hlex, hparse⟩ := h
  exact ⟨ts, hlex, hparse.mono hroom⟩

theorem reads_null : Reads 0 Json.null.compactChars .null :=
  ⟨[.leaf .null], fun _ _ _ h => h.null, parses_leaf .null⟩

theorem reads_bool (b : Bool) : Reads 0 (Json.bool b).compactChars (.bool b) :=
  ⟨[.leaf (.bool b)], fun _ _ _ h => h.bool b, parses_leaf (.bool b)⟩

theorem reads_text (s : String) : Reads 0 (quoted s) (.str s) :=
  ⟨[.text s], fun _ _ _ h => h.text s, parses_text s⟩

theorem reads_number {cs : List Char} {w : Json} (h : number? cs = some (w, [])) : Reads 0 cs w :=
  ⟨[.leaf w], fun _ _ hdelimited hlex => hlex.number hdelimited h, parses_leaf w⟩

theorem forall₂_between {α β γ : Type} {R : α → β → Prop} {S : β → γ → Prop} {xs : List α}
    {zs : List γ} (h : List.Forall₂ (fun x z => ∃ y, R x y ∧ S y z) xs zs) :
    ∃ ys, List.Forall₂ R xs ys ∧ List.Forall₂ S ys zs := by
  induction h with
  | nil => exact ⟨[], .nil, .nil⟩
  | cons hxz _ ih =>
    obtain ⟨y, hx, hz⟩ := hxz
    obtain ⟨ys, hxs, hzs⟩ := ih
    exact ⟨y :: ys, .cons hx hxs, .cons hz hzs⟩

/-- **A container** from its parts between a pair of brackets. -/
theorem Container.reads {α : Type} (c : Container α) {room : Nat} (opening closing : Char)
    (hbefore : ∀ rest us, Lexes rest us → Lexes (opening :: rest) (c.before :: us))
    (hafter : ∀ rest us, Lexes rest us → Lexes (closing :: rest) (c.after :: us))
    (hclosing : ∀ rest, Delimited (closing :: rest)) {parts : List (List Char)} {xs : List α}
    (h : List.Forall₂ (fun part x => ∃ ts, Spells part ts ∧ c.ReadsPart room ts x) parts xs) :
    Reads (room + 1) (opening :: separated [','] parts ++ [closing]) (c.finished xs) := by
  obtain ⟨tss, hspells, hparts⟩ := forall₂_between h
  refine ⟨_, fun rest us _ hus => ?_, c.parses hparts⟩
  have hend : Lexes (closing :: rest) (c.after :: us) := hafter rest us hus
  have hbody := Spells.separated hspells (closing :: rest) (c.after :: us) (hclosing rest) hend
  have hall := hbefore _ _ hbody
  simpa using hall

/-- **An array** of items between brackets. -/
theorem Reads.array {room : Nat} {parts : List (List Char)} {items : List Json}
    (h : List.Forall₂ (Reads room) parts items) :
    Reads (room + 1) ('[' :: separated [','] parts ++ [']']) (.arr items) := by
  have hitems : List.Forall₂ (fun part w => ∃ ts, Spells part ts ∧
      Container.array.ReadsPart room ts w) parts items := by
    refine h.imp fun part w hpart => ?_
    obtain ⟨ts, hspells, hparses⟩ := hpart
    exact ⟨ts, hspells, Container.readsPart_array hparses⟩
  exact Container.array.reads '[' ']' (fun _ _ h => h.mark rfl rfl) (fun _ _ h => h.mark rfl rfl)
    (delimited_cons (by decide)) hitems

/-- A key and the characters of its value. -/
def ReadsMember (room : Nat) (part : List Char) (e : String × Json) : Prop :=
  ∃ cs, part = quoted e.1 ++ ':' :: cs ∧ Reads room cs e.2

/-- **An object** of members between braces. -/
theorem Reads.object {room : Nat} {parts : List (List Char)} {members : Dict Json}
    (hkeys : Dict.Distinct members) (h : List.Forall₂ (ReadsMember room) parts members) :
    Reads (room + 1) ('\x7b' :: separated [','] parts ++ ['\x7d']) (.obj members) := by
  have hmembers : List.Forall₂ (fun part e => ∃ ts, Spells part ts ∧
      Container.object.ReadsPart room ts e) parts members := by
    refine h.imp fun part e hpart => ?_
    obtain ⟨cs, rfl, us, hspells, hparses⟩ := hpart
    refine ⟨.text e.1 :: .colon :: us, fun rest ts hdelimited hts => ?_,
      Container.readsPart_object hparses e.1⟩
    rw [List.append_assoc]
    exact ((hspells rest ts hdelimited hts).mark rfl rfl).text e.1
  have hfinished : Container.object.finished members = .obj members :=
    congrArg obj (Dict.ofList_eq_self hkeys)
  rw [← hfinished]
  exact Container.object.reads '\x7b' '\x7d' (fun _ _ h => h.mark rfl rfl)
    (fun _ _ h => h.mark rfl rfl) (delimited_cons (by decide)) hmembers

/-- **Characters that are read as a document** within the depth limit are a text of it. -/
theorem Reads.read_eq {text : String} {w : Json} (h : Reads depthLimit text.toList w) :
    read text = .ok w := by
  obtain ⟨ts, hspells, hparses⟩ := h
  have hlexes : Lexes text.toList ts := by
    have := hspells [] [] delimited_nil lexes_nil
    rwa [List.append_nil, List.append_nil] at this
  have hfold : ts.foldlM State.step State.start = some ⟨[], .nothing w⟩ :=
    hparses .value [] (Or.inl rfl) (Nat.le_of_eq (Nat.zero_add _))
  unfold read
  simp only [hlexes.tokens?_eq, hfold]

end BoardAtlas.Json
