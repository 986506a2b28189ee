import BoardAtlas.Number.Power

/-!
# Doubles as exact numbers

A finite double is `± mantissa · 2 ^ exponent` with a natural mantissa. Going through this form, every
operation whose result is decided by the exact value is done on natural numbers and rounded once.

* `Parts`, `parts?`: the exact form of a finite double;
* `Tie`, `roundQuotient`: quotients rounded to the nearest natural number;
* `ofRatio`: the double nearest to a quotient, a tie going to the even mantissa;
* `integer?`, `truncated`: integral values;
* `remainder`, `fusedMulAdd`: the remainder of a truncated division, and a product with a sum rounded once;
* `larger`, `smaller`: order operations that ignore a NaN beside a number.
-/

namespace BoardAtlas.Binary64

/-- The exact value `± mantissa · 2 ^ exponent` of a finite double. -/
structure Parts where
  negative : Bool
  mantissa : Nat
  exponent : Int
  deriving Repr, DecidableEq

/-- The exact value of a double, `none` for an infinity or a NaN. -/
def parts? (x : Float) : Option Parts :=
  let word : Nat := x.toBits.toNat
  let field : Nat := word / pow2 52 % pow2 11
  let fraction : Nat := word % pow2 52
  let negative := decide (pow2 63 ≤ word)
  if field = 2047 then none
  else if field = 0 then some ⟨negative, fraction, -1074⟩
  else some ⟨negative, pow2 52 + fraction, (field : Int) - 1075⟩

/-- Which of two equally near numbers is taken. -/
inductive Tie where
  | even
  | upper
  deriving DecidableEq, Repr

/-- `n / d` rounded to the nearest natural number. -/
def roundQuotient (tie : Tie) (n d : Nat) : Nat :=
  let q := n / d
  let r := n % d
  if 2 * r < d then q
  else if d < 2 * r then q + 1
  else match tie with
    | .even => if q % 2 = 0 then q else q + 1
    | .upper => q + 1

/-- `⌊log₂ (n / d)⌋` for positive `n` and `d`. -/
def binaryOrder (n d : Nat) : Int :=
  let k : Int := (n.log2 : Int) - d.log2
  if n * pow2 (-k).toNat < d * pow2 k.toNat then k - 1 else k

/-- The double of sign `negative` nearest to `n / d`, a tie going to the even mantissa. -/
def ofRatio (negative : Bool) (n d : Nat) : Float :=
  let sign := if negative then pow2 63 else 0
  if n = 0 ∨ d = 0 then Float.ofBits (UInt64.ofNat sign)
  else
    let e := max (binaryOrder n d - 52) (-1074)
    let m := roundQuotient .even (n * pow2 (-e).toNat) (d * pow2 e.toNat)
    let word := min ((e + 1074).toNat * pow2 52 + m) (2047 * pow2 52)
    Float.ofBits (UInt64.ofNat (sign + word))

/-- The double nearest to `± m · 2 ^ e`. -/
def ofScaled (negative : Bool) (m : Nat) (e : Int) : Float :=
  ofRatio negative (m * pow2 e.toNat) (pow2 (-e).toNat)

/-- The double nearest to a natural number. -/
def ofNat (n : Nat) : Float := ofRatio false n 1

/-- The double nearest to an integer. -/
def ofInt (n : Int) : Float := ofRatio (decide (n < 0)) n.natAbs 1

/-! ## Integral values -/

/-- The value of the parts with its fraction cut off. -/
def Parts.truncate (p : Parts) : Int :=
  let n := p.mantissa * pow2 p.exponent.toNat / pow2 (-p.exponent).toNat
  if p.negative then -(n : Int) else n

/-- The parts stand for an integer. -/
def Parts.isIntegral (p : Parts) : Bool := p.mantissa % pow2 (-p.exponent).toNat == 0

/-- The integer that a double is, if it is one. -/
def integer? (x : Float) : Option Int :=
  match parts? x with
  | some p => if p.isIntegral then some p.truncate else none
  | none => none

/-- The integer written for a double within the 64-bit range: the guard compares doubles, so the
upper bound itself is let in and is written as the largest 64-bit integer. -/
def int64? (x : Float) : Option Int :=
  match integer? x with
  | some n => if -(pow2 63 : Int) ≤ n ∧ n ≤ pow2 63 then some (min n (pow2 63 - 1)) else none
  | none => none

/-- A double cut to a natural number no larger than `limit`; a negative number gives `0`. -/
def truncated (limit : Nat) (x : Float) : Nat :=
  match parts? x with
  | some p => min p.truncate.toNat limit
  | none => if x > 0 then limit else 0

/-! ## Operations decided by the exact value -/

/-- The remainder of `x / y` with the quotient cut towards zero, so that it has the sign of `x`. -/
def remainder (x y : Float) : Float :=
  match parts? x, parts? y with
  | some p, some q =>
    if q.mantissa = 0 then 0.0 / 0.0
    else
      let e := min p.exponent q.exponent
      let m := p.mantissa * pow2 (p.exponent - e).toNat
      let n := q.mantissa * pow2 (q.exponent - e).toNat
      ofScaled p.negative (m % n) e
  | some _, none => if y.isNaN then y else x
  | none, _ => 0.0 / 0.0

/-- The mantissa with its sign. -/
def Parts.signed (p : Parts) : Int := if p.negative then -(p.mantissa : Int) else p.mantissa

/-- `x * y + z`, rounded once. Where the exact value is zero the product is a double, so that the plain
operations are exact and give the zero its sign. -/
def fusedMulAdd (x y z : Float) : Float :=
  match parts? x, parts? y, parts? z with
  | some p, some q, some r =>
    let product := p.exponent + q.exponent
    let e := min product r.exponent
    let n := p.signed * q.signed * pow2 (product - e).toNat + r.signed * pow2 (r.exponent - e).toNat
    if n = 0 then x * y + z else ofScaled (decide (n < 0)) n.natAbs e
  | _, _, _ => x * y + z

/-- The larger of two doubles; a NaN gives way to a number and a tie to the first. -/
def larger (x y : Float) : Float := if x.isNaN || y > x then y else x

/-- The smaller of two doubles; a NaN gives way to a number and a tie to the first. -/
def smaller (x y : Float) : Float := if x.isNaN || y < x then y else x

end BoardAtlas.Binary64
