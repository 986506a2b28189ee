import BoardAtlas.Manifest.Error
import BoardAtlas.Text.Blank
import BoardAtlas.Listing

/-!
# Variables in text

A text may refer to variables by `$` and a name in braces. References are replaced in passes over the
whole text until none is left, so that a variable may refer to others; then each conditional
`<A:B:T:F>` is decided once.

* `Piece`, `piecesOf`, `expand`: one pass;
* `settle`: passes until nothing is left to replace;
* `conditional?`, `decide`: the conditionals of a text;
* **`substituteText`**, **`substituteValue`**: a text, and all texts and keys of a value.
-/

namespace BoardAtlas

/-- Variables; a later writing of a name shadows an earlier one. -/
abbrev Vars : Type := Dict Value

namespace Substitution

/-- A character, or a reference by name. -/
inductive Piece where
  | plain (c : Char)
  | reference (name : List Char)
  deriving DecidableEq, Repr

/-- The pieces of a text. The first argument holds the name read so far, last character first, while a
reference is open; one that is never closed is plain text. -/
def piecesFrom : Option (List Char) → List Char → List Piece
  | none, '$' :: '\x7b' :: cs => piecesFrom (some []) cs
  | none, c :: cs => .plain c :: piecesFrom none cs
  | none, [] => []
  | some name, '\x7d' :: cs => .reference name.reverse :: piecesFrom none cs
  | some name, c :: cs => piecesFrom (some (c :: name)) cs
  | some name, [] => ('$' :: '\x7b' :: name.reverse).map .plain

/-- The pieces of a text. -/
def piecesOf (cs : List Char) : List Piece := piecesFrom none cs

/-- The name of a reference. -/
def Piece.name? : Piece → Option String
  | .plain _ => none
  | .reference name => some (String.ofList name)

/-- The variable that a piece refers to, if it is defined. -/
def Piece.value? (vars : Vars) (p : Piece) : Option Value := p.name?.bind vars.get?

/-- The text of a piece; a reference to an unknown variable stays as it is. -/
def Piece.expand (vars : Vars) (p : Piece) : List Char :=
  match p, p.value? vars with
  | .plain c, _ => [c]
  | .reference _, some v => v.varText.toList
  | .reference name, none => '$' :: '\x7b' :: name ++ ['\x7d']

/-- One pass: every reference to a known variable is replaced. -/
def expand (vars : Vars) (cs : List Char) : List Char := (piecesOf cs).flatMap (Piece.expand vars)

/-- A pass would replace something. -/
def replaces (vars : Vars) (cs : List Char) : Bool :=
  (piecesOf cs).any fun p => (p.value? vars).isSome

/-- A reference is opened somewhere. -/
def opens : List Char → Bool
  | '$' :: '\x7b' :: _ => true
  | _ :: cs => opens cs
  | [] => false

/-- The error of a text that cannot settle: the names it still refers to. -/
def unresolved (cs : List Char) : ManifestError :=
  .unresolved (Listing.dropRepeats ((piecesOf cs).filterMap Piece.name?)) (String.ofList cs)

/-- Passes until no reference is left. A pass that replaces nothing, and one more pass than there are
variables, show that the text never settles. -/
def settle (vars : Vars) : Nat → List Char → Except ManifestError (List Char)
  | passes, cs =>
    if opens cs then
      match passes with
      | 0 => .error (unresolved (expand vars cs))
      | n + 1 =>
        if replaces vars cs then settle vars n (expand vars cs)
        else .error (unresolved (expand vars cs))
    else .ok cs

/-! ## Conditionals -/

/-- The characters before a stop on the same line, and those after it. -/
def upTo? (stop : Char) : List Char → Option (List Char × List Char)
  | [] => none
  | c :: cs =>
    if c = stop then some ([], cs)
    else if c = '\n' then none
    else (upTo? stop cs).map fun (part, rest) => (c :: part, rest)

/-- A part of at least one character, which may be the stop itself, and what follows its stop. -/
def part? (stop : Char) : List Char → Option (List Char × List Char)
  | [] => none
  | c :: cs =>
    if c = '\n' then none else (upTo? stop cs).map fun (part, rest) => (c :: part, rest)

/-- A conditional `<A:B:T:F>`. -/
structure Conditional where
  left : List Char
  right : List Char
  same : List Char
  other : List Char

/-- `T` if `A` and `B` are equal up to blanks at their ends, else `F`. -/
def Conditional.decide (t : Conditional) : List Char :=
  if Text.trim t.left = Text.trim t.right then t.same else t.other

/-- The conditional after an opening `<`, each part as short as it can be, and what follows it. -/
def conditional? (cs : List Char) : Option (Conditional × List Char) := do
  let (left, cs) ← part? ':' cs
  let (right, cs) ← part? ':' cs
  let (same, cs) ← part? ':' cs
  let (other, cs) ← part? '>' cs
  pure (⟨left, right, same, other⟩, cs)

theorem length_upTo? {stop : Char} {cs part rest : List Char}
    (h : upTo? stop cs = some (part, rest)) : rest.length < cs.length := by
  induction cs generalizing part with
  | nil => simp [upTo?] at h
  | cons c cs ih =>
    by_cases hs : c = stop
    · simp_all [upTo?]
    · by_cases hn : c = '\n'
      · simp [upTo?, hn] at h
        exact absurd (hn ▸ h.1) (by simpa [hn] using hs)
      · simp only [upTo?, hs, hn, if_false, Option.map_eq_some_iff, Prod.exists,
          Prod.mk.injEq] at h
        obtain ⟨p, r, hu, -, rfl⟩ := h
        have := ih hu
        simp
        omega

theorem length_part? {stop : Char} {cs part rest : List Char}
    (h : part? stop cs = some (part, rest)) : rest.length < cs.length := by
  cases cs with
  | nil => simp [part?] at h
  | cons c cs =>
    by_cases hn : c = '\n'
    · simp [part?, hn] at h
    · simp only [part?, hn, if_false, Option.map_eq_some_iff, Prod.exists, Prod.mk.injEq] at h
      obtain ⟨p, r, hu, -, rfl⟩ := h
      have := length_upTo? hu
      simp
      omega

theorem length_conditional? {cs rest : List Char} {t : Conditional}
    (h : conditional? cs = some (t, rest)) : rest.length < cs.length := by
  simp only [conditional?, Option.bind_eq_bind, Option.bind_eq_some_iff, Prod.exists,
    Option.pure_def, Option.some.injEq, Prod.mk.injEq] at h
  obtain ⟨_, _, h1, _, _, h2, _, _, h3, _, _, h4, -, rfl⟩ := h
  have := length_part? h1
  have := length_part? h2
  have := length_part? h3
  have := length_part? h4
  omega

/-- Every conditional decided, from the left; what it leaves behind is not looked at again. -/
def decide (cs : List Char) : List Char :=
  match cs with
  | [] => []
  | c :: rest =>
    if c = '<' then
      match h : conditional? rest with
      | some (t, tail) =>
        have : tail.length < rest.length := length_conditional? h
        t.decide ++ decide tail
      | none => c :: decide rest
    else c :: decide rest
termination_by cs.length

/-- The text has something to substitute. -/
def isTouched (cs : List Char) : Bool := opens cs || cs.contains '<'

end Substitution

open Substitution in
/-- **A text with its references replaced and its conditionals decided.** -/
def substituteText (vars : Vars) (s : String) : Except ManifestError String :=
  (settle vars vars.length s.toList).map fun cs => String.ofList (Substitution.decide cs)

/-- A text that is left alone when nothing in it asks for substitution. -/
def substituteTouched (vars : Vars) (s : String) : Except ManifestError String :=
  if Substitution.isTouched s.toList then substituteText vars s else .ok s

mutual

/-- Substitution in every text and key of a value, whatever the variables. -/
def substituteAll (vars : Vars) : Value → Except ManifestError Value
  | .str s => (substituteTouched vars s).map .str
  | .list items => (substituteItems vars items).map .list
  | .obj fields => (substituteMembers vars [] fields).map .obj
  | v => .ok v

/-- Substitution in the items of a list. -/
def substituteItems (vars : Vars) : List Value → Except ManifestError (List Value)
  | [] => .ok []
  | v :: rest => do
    let v ← substituteAll vars v
    let rest ← substituteItems vars rest
    pure (v :: rest)

/-- Substitution in members, a key before its value, each written into what is there already. -/
def substituteMembers (vars : Vars) (done : Dict Value) :
    List (String × Value) → Except ManifestError (Dict Value)
  | [] => .ok done
  | (k, v) :: rest => do
    let k ← substituteTouched vars k
    let v ← substituteAll vars v
    substituteMembers vars (done.insert k v) rest

end

/-- **Substitution in a value**; without variables it is left as it is. -/
def substituteValue (vars : Vars) (v : Value) : Except ManifestError Value :=
  if vars.isEmpty then .ok v else substituteAll vars v

end BoardAtlas
