import BoardAtlas.Json.Tree
import BoardAtlas.Number.Reading

/-!
# JSON tokens

A strict reading of JSON text: four blank characters, no comments, no leading zeros, no bare controls and
no halves of surrogate pairs.

* `Token`: punctuation, texts and other leaves;
* `stringBody?`: the characters of a quoted text;
* `number?`: a number; its digits are gathered in 64 bits and scaled by one power of ten;
* **`tokens?`**: the tokens of a text.
-/

namespace BoardAtlas.Json

/-- A token; `leaf` is a number or one of the three words. -/
inductive Token where
  | openObject
  | closeObject
  | openArray
  | closeArray
  | colon
  | comma
  | text (s : String)
  | leaf (v : Json)

/-! ## Texts -/

/-- The value of four hexadecimal digits. -/
def fourHex? (cs : List Char) : Option Nat :=
  if cs.all isHexDigit then some (digitsValue 16 cs) else none

/-- The character that a surrogate pair stands for. -/
def pairedChar (high low : Nat) : Char := Char.ofNat (0x10000 + (high - 0xD800) * 1024 + (low - 0xDC00))

/-- The character that a one-letter escape stands for. -/
def escapedChar? : Char → Option Char
  | '"' => some '"'
  | '\\' => some '\\'
  | '/' => some '/'
  | 'b' => some '\x08'
  | 'f' => some '\x0c'
  | 'n' => some '\n'
  | 'r' => some '\r'
  | 't' => some '\t'
  | _ => none

/-- One character of a quoted text, with what follows it; a surrogate must be half of a pair. -/
def stringChar? : List Char → Option (Char × List Char)
  | '\\' :: 'u' :: a :: b :: c :: d :: rest =>
    (fourHex? [a, b, c, d]).bind fun n =>
      if 0xD800 ≤ n ∧ n ≤ 0xDBFF then
        match rest with
        | '\\' :: 'u' :: e :: f :: g :: h :: more =>
          (fourHex? [e, f, g, h]).bind fun m =>
            if 0xDC00 ≤ m ∧ m ≤ 0xDFFF then some (pairedChar n m, more) else none
        | _ => none
      else if 0xDC00 ≤ n ∧ n ≤ 0xDFFF then none
      else some (Char.ofNat n, rest)
  | '\\' :: c :: rest => (escapedChar? c).map fun x => (x, rest)
  | '\\' :: [] => none
  | c :: rest => if c.toNat < 0x20 then none else some (c, rest)
  | [] => none

theorem length_stringChar? {cs rest : List Char} {c : Char} (h : stringChar? cs = some (c, rest)) :
    rest.length < cs.length := by
  unfold stringChar? at h
  split at h
  · rw [Option.bind_eq_some_iff] at h
    obtain ⟨n, -, h⟩ := h
    split at h
    · split at h
      · rw [Option.bind_eq_some_iff] at h
        obtain ⟨m, -, h⟩ := h
        split at h <;> simp_all
        omega
      · simp at h
    · split at h <;> simp_all
      omega
  · simp only [Option.map_eq_some_iff, Prod.mk.injEq] at h
    obtain ⟨_, _, _, rfl⟩ := h
    simp only [List.length_cons]
    omega
  · simp at h
  · split at h <;> simp_all
  · simp at h

/-- The characters up to the closing quote, with what follows it. -/
def stringBody? (cs : List Char) : Option (List Char × List Char) :=
  match cs with
  | [] => none
  | '"' :: rest => some ([], rest)
  | c :: rest =>
    match h : stringChar? (c :: rest) with
    | none => none
    | some (x, more) =>
      have : more.length < (c :: rest).length := length_stringChar? h
      (stringBody? more).map fun (text, tail) => (x :: text, tail)
termination_by cs.length
decreasing_by exact length_stringChar? h

/-! ## Numbers -/

/-- Digits gathered while the number stays below `2 ^ 64`, with how many were taken. -/
def gather (start : Nat) : List Char → Nat × Nat
  | [] => (start, 0)
  | c :: cs =>
    let next := start * 10 + (c.toNat - '0'.toNat)
    if next < pow2 64 then let (n, k) := gather next cs; (n, k + 1) else (start, 0)

/-- The double nearest to a power of ten. -/
def powerOfTen (n : Nat) : Float := Binary64.ofNat (pow10 n)

/-- `x · 10 ^ e` with one rounding for each power taken: a power up to 308 at once, a lower exponent in
steps of 308. `none` when it overflows. Three steps already bring every start value to zero. -/
def scaledByTen? : Nat → Float → Int → Option Float
  | steps, x, e =>
    if e.natAbs ≤ 308 then
      if 0 ≤ e then
        let y := x * powerOfTen e.natAbs
        if y.isInf then none else some y
      else some (x / powerOfTen e.natAbs)
    else if x == 0 then some x
    else if 0 ≤ e then none
    else match steps with
      | 0 => some 0
      | n + 1 => scaledByTen? n (x / powerOfTen 308) (e + 308)

/-- A number from its digits: a plain integer in the 64-bit range stays one, any other number becomes a
double; an overflowing one is refused. The exponent part is a sign and digits. -/
def numberOf? (negative : Bool) (whole : List Char) (fraction : List Char)
    (power : Option (Bool × List Char)) : Option Json :=
  let (m, taken) := gather 0 whole
  let signed (x : Float) : Json := float (if negative then -x else x)
  let dropped : Int := (whole.length : Int) - taken
  if fraction = [] ∧ power = none ∧ dropped = 0 then
    if negative then
      if 1 ≤ m ∧ m ≤ pow2 63 then some (int (-(m : Int))) else some (signed (Binary64.ofNat m))
    else some (int m)
  else
    let (m, places) := gather m fraction
    let exponent := dropped - places
    match power with
    | none => (scaledByTen? 4 (Binary64.ofNat m) exponent).map signed
    | some (down, digits) =>
      let n : Int := digitsValue 10 digits
      if pow2 31 ≤ n then if m ≠ 0 ∧ ¬ down then none else some (signed 0)
      else
        (scaledByTen? 4 (Binary64.ofNat m) (if down then exponent - n else exponent + n)).map signed

/-- An exponent part at the front, if there is one: `some none` means that there is none. -/
def exponentPart? : List Char → Option (Option (Bool × List Char) × List Char)
  | c :: rest =>
    if c = 'e' ∨ c = 'E' then
      let (down, tail) := signOf rest
      let (digits, tail) := digitsOf tail
      if digits = [] then none else some (some (down, digits), tail)
    else some (none, c :: rest)
  | [] => some (none, [])

/-- A number at the front without its sign, with what follows it. -/
def unsigned? (negative : Bool) (cs : List Char) : Option (Json × List Char) :=
  let (whole, rest) := digitsOf cs
  if whole = [] ∨ (whole.head? = some '0' ∧ whole.length ≠ 1) then none
  else
    let read (fraction rest : List Char) : Option (Json × List Char) :=
      (exponentPart? rest).bind fun (power, tail) =>
        (numberOf? negative whole fraction power).map fun v => (v, tail)
    match rest with
    | '.' :: more =>
      let (fraction, tail) := digitsOf more
      if fraction = [] then none else read fraction tail
    | _ => read [] rest

/-- A number at the front, with what follows it. -/
def number? : List Char → Option (Json × List Char)
  | '-' :: cs => unsigned? true cs
  | cs => unsigned? false cs

/-! ## Tokens -/

/-- The blanks of JSON. -/
def isSpace (c : Char) : Bool := c = ' ' || c = '\t' || c = '\n' || c = '\r'

/-- The token at the front, with what follows it. -/
def token? : List Char → Option (Token × List Char)
  | '\x7b' :: cs => some (.openObject, cs)
  | '\x7d' :: cs => some (.closeObject, cs)
  | '[' :: cs => some (.openArray, cs)
  | ']' :: cs => some (.closeArray, cs)
  | ':' :: cs => some (.colon, cs)
  | ',' :: cs => some (.comma, cs)
  | '"' :: cs => (stringBody? cs).map fun (text, rest) => (.text (String.ofList text), rest)
  | 't' :: 'r' :: 'u' :: 'e' :: cs => some (.leaf (bool true), cs)
  | 'f' :: 'a' :: 'l' :: 's' :: 'e' :: cs => some (.leaf (bool false), cs)
  | 'n' :: 'u' :: 'l' :: 'l' :: cs => some (.leaf null, cs)
  | cs => (number? cs).map fun (v, rest) => (.leaf v, rest)

/-- **The tokens of a text**, `none` if a part of it is none. The counter bounds the number of tokens and
blanks; the length of the text is enough. -/
def tokensWithin? : Nat → List Char → Option (List Token)
  | _, [] => some []
  | 0, _ :: _ => none
  | n + 1, c :: cs =>
    if isSpace c then tokensWithin? n cs
    else (token? (c :: cs)).bind fun (t, rest) => (tokensWithin? n rest).map (t :: ·)

/-- **The tokens of a text**, `none` if a part of it is none. -/
def tokens? (cs : List Char) : Option (List Token) := tokensWithin? cs.length cs

end BoardAtlas.Json
