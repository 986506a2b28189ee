import BoardAtlas.Number.Binary64

/-!
# Numbers from text

* `digitsOf`: a run of digits and what follows;
* `ofDecimal`: the double nearest to a decimal, whatever its exponent;
* **`readNumber?`**: a whole text as a number: a decimal with optional sign, fraction and exponent, or the
  words `inf`, `infinity` and `nan` in any case;
* `readNatural?`: a natural number below a limit, a plus sign allowed.
-/

namespace BoardAtlas

/-- The digit characters at the front and the rest. -/
def digitsOf (cs : List Char) : List Char × List Char :=
  (cs.takeWhile Char.isDigit, cs.dropWhile Char.isDigit)

/-- The number that digit characters write in the given base. -/
def digitsValue (base : Nat) (cs : List Char) : Nat :=
  cs.foldl (fun n c =>
    let d := if c.isDigit then c.toNat - '0'.toNat else c.toUpper.toNat - 'A'.toNat + 10
    n * base + d) 0

/-- The double nearest to `± digits · 10 ^ exponent`. A decimal of more than four hundred places before the
point overflows, and one that begins more than four hundred places behind it vanishes, so that the power
is needed only between them. -/
def ofDecimal (negative : Bool) (digits : Nat) (exponent : Int) : Float :=
  let zero := Binary64.ofRatio negative 0 1
  if digits = 0 then zero
  else
    let size : Int := (Nat.toDigits 10 digits).length
    if 400 < size + exponent then (if negative then -1.0 / 0.0 else 1.0 / 0.0)
    else if size + exponent < -400 then zero
    else Binary64.ofRatio negative (digits * pow10 exponent.toNat) (pow10 (-exponent).toNat)

/-- An optional sign and the rest. -/
def signOf : List Char → Bool × List Char
  | '-' :: cs => (true, cs)
  | '+' :: cs => (false, cs)
  | cs => (false, cs)

/-- An exponent `e`, optional sign, digits, to the end of the text; an empty text is exponent `0`. -/
def readExponent? : List Char → Option Int
  | [] => some 0
  | e :: cs =>
    if e = 'e' ∨ e = 'E' then
      let (negative, rest) := signOf cs
      if rest ≠ [] ∧ rest.all Char.isDigit then
        let n : Int := digitsValue 10 rest
        some (if negative then -n else n)
      else none
    else none

/-- A decimal without its sign: digits on at least one side of an optional point. -/
def readDecimal? (negative : Bool) (cs : List Char) : Option Float :=
  let (whole, rest) := digitsOf cs
  let (fraction, tail) := match rest with
    | '.' :: more => digitsOf more
    | _ => ([], rest)
  if whole = [] ∧ fraction = [] then none
  else (readExponent? tail).map fun e =>
    ofDecimal negative (digitsValue 10 (whole ++ fraction)) (e - fraction.length)

/-- **A whole text as a number.** -/
def readNumber? (cs : List Char) : Option Float :=
  let (negative, rest) := signOf cs
  let word := String.ofList (rest.map Char.toLower)
  if word = "inf" ∨ word = "infinity" then some (if negative then -1.0 / 0.0 else 1.0 / 0.0)
  else if word = "nan" then some (0.0 / 0.0)
  else readDecimal? negative rest

/-- A natural number below `limit` in the given base, one plus sign allowed in front. -/
def readNatural? (isDigit : Char → Bool) (base limit : Nat) (cs : List Char) : Option Nat :=
  let digits := match cs with
    | '+' :: rest => rest
    | _ => cs
  if digits ≠ [] ∧ digits.all isDigit then
    let n := digitsValue base digits
    if n < limit then some n else none
  else none

/-- A natural number of 32 bits in decimal digits. -/
def readWord32? (cs : List Char) : Option Nat := readNatural? Char.isDigit 10 (pow2 32) cs

/-- A hexadecimal digit of either case. -/
def isHexDigit (c : Char) : Bool :=
  c.isDigit || ('a' ≤ c && c ≤ 'f') || ('A' ≤ c && c ≤ 'F')

end BoardAtlas
