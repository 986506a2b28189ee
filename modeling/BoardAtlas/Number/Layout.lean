import BoardAtlas.Number.Shortest

/-!
# Numbers as text

One layout rule writes the shortest digits either positionally or with an exponent; a `Layout` record
holds what the output formats decide differently, the choice between equally near digits included.

* `Layout`, `Layout.text`: the rule and its parameters;
* `Layout.compact`, `Layout.json`, `Layout.plain`: numbers inside text, JSON numbers, numbers in messages;
* **`formatNumber`**: a number the way it is written into manifest text;
* `oneDecimal`: one digit after the point, rounded from the exact value.
-/

namespace BoardAtlas

open Binary64

/-- How shortest digits are laid out. The *place* of the point counts the digits before it; a number is
positional while its place is above `lowest` and at most `highest`. -/
structure Layout where
  lowest : Int
  highest : Int
  /-- Written after a positional number that is integral. -/
  integralTail : String
  /-- Written between the `e` and an exponent that is not negative. -/
  exponentSign : String
  /-- Which of two equally near decimals of the least length is written. -/
  tie : Tie

/-- Numbers inside text: positional from `0.00001` to sixteen digits before the point. -/
def Layout.compact : Layout := ⟨-5, 16, ".0", "", .even⟩

/-- JSON numbers, which keep a fraction or an exponent: positional on the same range, then `1e+22`. -/
def Layout.json : Layout := ⟨-5, 16, ".0", "+", .even⟩

/-- Numbers in messages are always positional, and a tie goes away from zero. -/
def Layout.plain : Layout := ⟨-400, 400, "", "", .upper⟩

/-- A positive decimal in the given layout. -/
def Layout.decimal (l : Layout) (c : Decimal) : String :=
  let digits := Nat.toDigits 10 c.digits
  let place : Int := digits.length + c.exponent
  if l.lowest < place ∧ place ≤ l.highest then
    if 0 ≤ c.exponent then
      String.ofList (digits ++ List.replicate c.exponent.toNat '0') ++ l.integralTail
    else if 0 < place then
      String.ofList (digits.take place.toNat ++ '.' :: digits.drop place.toNat)
    else
      String.ofList ('0' :: '.' :: List.replicate (-place).toNat '0' ++ digits)
  else
    let point := if digits.length = 1 then [] else ['.']
    let power := place - 1
    String.ofList (digits.take 1 ++ point ++ digits.drop 1) ++ "e" ++
      (if power < 0 then "-" else l.exponentSign) ++ toString power.natAbs

/-- A double in the given layout. -/
def Layout.text (l : Layout) (x : Float) : String :=
  match parts? x with
  | none => if x.isNaN then "NaN" else if x < 0 then "-inf" else "inf"
  | some p =>
    (if p.negative then "-" else "") ++
      if p.mantissa = 0 then "0" ++ l.integralTail else l.decimal (shortest l.tie p)

/-- **A number as manifest text**: an integer within the 64-bit range without a fraction, any other
number by its shortest digits. -/
def formatNumber (x : Float) : String :=
  match int64? x with
  | some n => toString n
  | none => Layout.compact.text x

/-! ## One decimal -/

/-- The quotient `± n / d` with one digit after the point, a tie going to the even digit. -/
def oneDecimalRatio (negative : Bool) (n d : Nat) : String :=
  let tenths := roundQuotient .even (10 * n) d
  (if negative then "-" else "") ++ toString (tenths / 10) ++ "." ++ toString (tenths % 10)

/-- A double with one digit after the point, rounded from its exact value. -/
def oneDecimal (x : Float) : String :=
  match parts? x with
  | none => Layout.plain.text x
  | some p => oneDecimalRatio p.negative (p.mantissa * pow2 p.exponent.toNat) (pow2 (-p.exponent).toNat)

end BoardAtlas
