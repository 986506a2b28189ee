import BoardAtlas.Number.Binary64

/-!
# Roots, logarithms and inverse hyperbolic functions

Functions of doubles that go through rounded operations in a fixed order. Each is near the exact value,
and its last digit is that of the order of operations.

* `hypotenuse`: the length of a leg pair;
* `Reduced`, `Reduced.ofOnePlus`, `logOnePlus`: the logarithm of a number near one;
* **`areaSine`**, **`areaCosine`**, **`areaTangent`**: the inverse hyperbolic functions.
-/

namespace BoardAtlas.Binary64

/-- The double `2 ^ e`. -/
def powerOfTwo (e : Int) : Float := ofScaled false 1 e

/-! ## The length of a leg pair -/

/-- `√(x² + y²)` for `0 ≤ y ≤ x` whose squares neither overflow nor vanish: the root `h` of the rounded
sum, less `(h² - x² - y²) / 2h`. The excess is summed from small differences. -/
def hypotenuseOfOrdered (x y : Float) : Float :=
  let h := Float.sqrt (x * x + y * y)
  let excess :=
    if h ≤ 2 * y then
      let rise := h - y
      x * (2 * rise - x) + (rise - 2 * (x - y)) * rise
    else
      let rise := h - x
      2 * rise * (x - 2 * y) + ((4 * rise - y) * y + rise * rise)
  h - excess / (2 * h)

/-- `√(x² + y²)`. An infinite leg makes it infinite, even beside a NaN. -/
def hypotenuse (x y : Float) : Float :=
  if x.isInf || y.isInf then 1.0 / 0.0
  else if x.isNaN || y.isNaN then 0.0 / 0.0
  else
    let long := larger x.abs y.abs
    let short := smaller x.abs y.abs
    if short * powerOfTwo 54 ≤ long then long + short
    else if long > powerOfTwo 511 then
      hypotenuseOfOrdered (long * powerOfTwo (-600)) (short * powerOfTwo (-600)) * powerOfTwo 600
    else if short < powerOfTwo (-459) then
      hypotenuseOfOrdered (long * powerOfTwo 600) (short * powerOfTwo 600) * powerOfTwo (-600)
    else hypotenuseOfOrdered long short

/-! ## The logarithm of a number near one -/

/-- The number `2 ^ order · (1 + fraction)`, about between `√½` and `√2` times the power of two. -/
structure Reduced where
  order : Int
  fraction : Float
  /-- What the sum has lost to rounding, relative to the sum. -/
  lost : Float
  /-- The first twenty binary digits of the fraction are zero. -/
  near : Bool

/-- `1 + y` in reduced form, for `y` above `-1` and neither infinite nor tiny. -/
def Reduced.ofOnePlus (y : Float) : Reduced :=
  -- from `√½ - 1` to `√2 - 1`, as far as the leading 32 bits tell
  if Float.ofBits 0xBFD2BEC3FFFFFFFF ≤ y && y < Float.ofBits 0x3FDA827A00000000 then ⟨0, y, 0, false⟩
  else
    let exact := decide (powerOfTwo 53 ≤ y)
    let sum := if exact then y else 1 + y
    let word := sum.toBits.toNat
    let order : Int := (word / pow2 52 : Nat) - 1023
    let lost :=
      if exact then 0 else (if 0 < order then 1 - (sum - y) else y - (sum - 1)) / sum
    let digits := word % pow2 52
    let leading := digits / pow2 32
    if leading < 0x6A09E then
      ⟨order, Float.ofBits (UInt64.ofNat (1023 * pow2 52 + digits)) - 1, lost, leading == 0⟩
    else
      ⟨order + 1, Float.ofBits (UInt64.ofNat (1022 * pow2 52 + digits)) - 1, lost,
        decide (pow2 20 < leading + 4)⟩

/-- The first 32 binary digits of `ln 2`, so that small multiples of it are exact. -/
def ln2High : Float := Float.ofBits 0x3FE62E42FEE00000

/-- The rest of `ln 2`. -/
def ln2Low : Float := Float.ofBits 0x3DEA39EF35793C76

/-- `ln ((1 + s) / (1 - s)) / s - 2` as a polynomial in `z = s²`, for `s` up to `3 - 2√2`. -/
def logSeries (z : Float) : Float :=
  let z2 := z * z
  let z4 := z2 * z2
  let z6 := z4 * z2
  let second := fusedMulAdd z (Float.ofBits 0x3FD2492494229359) (Float.ofBits 0x3FD999999997FA04)
  let third := fusedMulAdd z (Float.ofBits 0x3FC7466496CB03DE) (Float.ofBits 0x3FCC71C51D8E78AF)
  let fourth := fusedMulAdd z (Float.ofBits 0x3FC2F112DF3E5244) (Float.ofBits 0x3FC39A09D078C69F)
  fusedMulAdd z6 fourth
    (fusedMulAdd z4 third (fusedMulAdd z (Float.ofBits 0x3FE5555555555593) (z2 * second)))

/-- The logarithm of a number in reduced form, `order · ln 2 + ln (1 + fraction)`. -/
def Reduced.log (r : Reduced) : Float :=
  let f := r.fraction
  let half := 0.5 * f * f
  let k := ofInt r.order
  let low := fusedMulAdd k ln2Low r.lost
  if r.near then
    -- `ln (1 + f)` is `f - f² / 2 + f³ / 3` to within a double
    let bend := fusedMulAdd (-0.66666666666666666) f 1 * half
    if r.order = 0 then f - bend else fusedMulAdd k ln2High (-(bend - low - f))
  else
    -- with `s = f / (2 + f)` it is `f - (f² / 2 - s * (f² / 2 + series))`
    let s := f / (2 + f)
    let bend := (logSeries (s * s) + half) * s
    if r.order = 0 then f - (half - bend) else fusedMulAdd k ln2High (-(half - (low + bend) - f))

/-- `ln (1 + y)`. -/
def logOnePlus (y : Float) : Float :=
  if y.isNaN || y < -1 then 0.0 / 0.0
  else if y == -1 then -1.0 / 0.0
  else if y.isInf || y.abs < powerOfTwo (-54) then y
  else if y.abs < powerOfTwo (-29) then fusedMulAdd (-(y * y)) 0.5 y
  else (Reduced.ofOnePlus y).log

/-! ## Inverse hyperbolic functions -/

/-- The number whose hyperbolic sine is `x`: `ln (|x| + √(x² + 1))` with the sign of `x`. -/
def areaSine (x : Float) : Float :=
  let size := x.abs
  let inverse := 1 / size
  let area := logOnePlus (size + size / (hypotenuse 1 inverse + inverse))
  if x.toBits.toNat < pow2 63 then area else -area

/-- The number whose hyperbolic cosine is `x`: `ln (x + √(x² - 1))`, which needs `x` to be at least `1`. -/
def areaCosine (x : Float) : Float :=
  if x < 1 then 0.0 / 0.0 else Float.log (x + Float.sqrt (x - 1) * Float.sqrt (x + 1))

/-- The number whose hyperbolic tangent is `x`: half of `ln (1 + 2x / (1 - x))`. -/
def areaTangent (x : Float) : Float := 0.5 * logOnePlus (2 * x / (1 - x))

end BoardAtlas.Binary64
