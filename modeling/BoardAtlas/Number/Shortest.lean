import BoardAtlas.Number.Binary64

/-!
# The shortest digits that read back

The real numbers that round to a double form an interval around it. For a growing number of digits the
two neighbours of the double on that decimal grid are tried; the first grid with a neighbour inside the
interval gives the digits, and of two such neighbours the nearer one. Where both are
equally near, a parameter decides.

* `Decimal`: digits and the place of the point;
* `Interval`, `Parts.interval`: the numbers that round to the same double;
* **`shortest`**: the decimal of a positive finite double.
-/

namespace BoardAtlas.Binary64

/-- The positive decimal `digits · 10 ^ exponent`. -/
structure Decimal where
  digits : Nat
  exponent : Int
  deriving Repr, DecidableEq

/-- Positive bounds in units of `2 ^ exponent`, with the value itself between them; the bounds belong
to the interval when `closed`. -/
structure Interval where
  low : Nat
  value : Nat
  high : Nat
  exponent : Int
  closed : Bool

/-- The numbers that round to a positive double: half the gap to either neighbour, the gap below a
power of two being half as wide. The even mantissa wins a tie, so it owns its ends. -/
def Parts.interval (p : Parts) : Interval :=
  let narrow := p.mantissa = pow2 52 ∧ -1074 < p.exponent
  { low := if narrow then 4 * p.mantissa - 1 else 4 * p.mantissa - 2
    value := 4 * p.mantissa
    high := 4 * p.mantissa + 2
    exponent := p.exponent - 2
    closed := p.mantissa % 2 = 0 }

/-- Whether `digits · 10 ^ exponent` lies in the interval. -/
def Interval.contains (i : Interval) (c : Decimal) : Bool :=
  let n := c.digits * pow10 c.exponent.toNat * pow2 (-i.exponent).toNat
  let scale := pow10 (-c.exponent).toNat * pow2 i.exponent.toNat
  if i.closed then decide (i.low * scale ≤ n ∧ n ≤ i.high * scale)
  else decide (i.low * scale < n ∧ n < i.high * scale)

/-- The exponent of ten of the first digit of the value, `⌊log₁₀⌋`. -/
def Interval.decimalOrder (i : Interval) : Int :=
  let n := i.value * pow2 i.exponent.toNat
  let d := pow2 (-i.exponent).toNat
  if d ≤ n then ((Nat.toDigits 10 (n / d)).length : Int) - 1
  else -((Nat.toDigits 10 ((d - 1) / n)).length : Int)

/-- The grid of step `10 ^ exponent` has a point in the interval: the neighbour nearest to the value. -/
def Interval.onGrid? (tie : Tie) (i : Interval) (exponent : Int) : Option Decimal :=
  let n := i.value * pow2 i.exponent.toNat * pow10 (-exponent).toNat
  let d := pow2 (-i.exponent).toNat * pow10 exponent.toNat
  let below : Decimal := ⟨n / d, exponent⟩
  let above : Decimal := ⟨n / d + 1, exponent⟩
  let nearest : Decimal := ⟨roundQuotient tie n d, exponent⟩
  if i.contains nearest then some nearest
  else if i.contains below then some below
  else if i.contains above then some above
  else none

/-- The digits without zeros at the end. -/
def Decimal.trimmed (c : Decimal) : Decimal :=
  (List.range (Nat.toDigits 10 c.digits).length).foldl (fun c _ =>
    if c.digits % 10 = 0 ∧ c.digits ≠ 0 then ⟨c.digits / 10, c.exponent + 1⟩ else c) c

/-- **The shortest decimal that reads back as the double**; seventeen digits always suffice. -/
def shortest (tie : Tie) (p : Parts) : Decimal :=
  let i := p.interval
  let grids := (List.range 17).map fun (k : Nat) => i.decimalOrder - k
  match grids.findSome? (i.onGrid? tie) with
  | some c => c.trimmed
  | none => ⟨p.mantissa * pow2 p.exponent.toNat, 0⟩

end BoardAtlas.Binary64
