import BoardAtlas.Proofs.Number.Sums
import BoardAtlas.Proofs.Geometry.Exact

/-!
# Doubles as rational numbers

A finite double is a rational number. What is computed exactly is computed on the sign, the mantissa and the exponent
that are read off the word of a double; these are the same that the arithmetic of doubles unpacks from it.

* `toNat_unpackMantissa`, `toNat_unpackExponent`, `ofBitVec_unpackSign_eq`: the three pieces of a word;
* **`parts?_eq`**, `value_of_parts?`: the parts of a double are what is unpacked from it;
* `rational`, `rational_of_parts?`, `lt_iff_rational`: the rational number that a double is;
* **`integer?_eq_some_iff`**, `int64?_eq_some_iff`: the doubles that are integers.
-/

namespace BoardAtlas.Binary64

open Float.Model Float.Model.UnpackedFloat Float.Model.Format

/-! ## Words -/

section Words

variable (word : BitVec 64)

theorem toNat_unpackMantissa : (@unpackMantissa binary64 word).toNat = word.toNat % 2 ^ 52 := by
  show (word.extractLsb 51 0).toNat = _
  rw [BitVec.extractLsb_toNat]
  simp

theorem toNat_unpackExponent : (@unpackExponent binary64 word).toNat = word.toNat / 2 ^ 52 % 2 ^ 11 := by
  show (word.extractLsb 62 52).toNat = _
  rw [BitVec.extractLsb_toNat]
  simp [Nat.shiftRight_eq_div_pow]

theorem ofBitVec_unpackSign_eq : Sign.ofBitVec (@unpackSign binary64 word) =
    if 2 ^ 63 ≤ word.toNat then .negative else .positive := by
  have hlt := word.isLt
  have hsign : (@unpackSign binary64 word).toNat = word.toNat / 2 ^ 63 := by
    show (word.extractLsb 63 63).toNat = _
    rw [BitVec.extractLsb_toNat]
    simp only [Nat.shiftRight_eq_div_pow]
    omega
  have hzero : @unpackSign binary64 word = 0#1 ↔ word.toNat < 2 ^ 63 := by
    rw [← BitVec.toNat_inj, hsign]
    show word.toNat / 2 ^ 63 = 0 ↔ _
    omega
  rw [Sign.ofBitVec]
  by_cases h : word.toNat < 2 ^ 63
  · rw [if_pos (hzero.2 h), if_neg (by omega)]
  · rw [if_neg (mt hzero.1 h), if_pos (by omega)]

end Words

/-! ## Parts -/

/-- The sign is a minus. -/
def isMinus : Sign → Bool
  | .negative => true
  | .positive => false

/-- The parts of an unpacked double. -/
def partsOf? : UnpackedFloat → Option Parts
  | .finite s m e _ => some ⟨isMinus s, m, e⟩
  | .zero s => some ⟨isMinus s, 0, -1074⟩
  | _ => none

section Parts

variable {x : Float} {p : Parts}

/-- **The parts of a double are what is unpacked from it.** -/
theorem parts?_eq (x : Float) : parts? x = partsOf? x.toModel.unpack := by
  obtain ⟨word, hword⟩ : ∃ word, x.toModel.toBits.toBitVec = word := ⟨_, rfl⟩
  have hunpack : x.toModel.unpack = UnpackedFloat.unpack binary64 word := hword ▸ rfl
  have hsign : decide (2 ^ 63 ≤ word.toNat) = isMinus (Sign.ofBitVec (@unpackSign binary64 word)) := by
    rw [ofBitVec_unpackSign_eq]
    split
    · next h => exact decide_eq_true h
    · next h => exact decide_eq_false h
  have hparts : parts? x =
      if (@unpackExponent binary64 word).toNat = 2047 then none
      else if (@unpackExponent binary64 word).toNat = 0 then
        some ⟨isMinus (Sign.ofBitVec (@unpackSign binary64 word)), (@unpackMantissa binary64 word).toNat, -1074⟩
      else some ⟨isMinus (Sign.ofBitVec (@unpackSign binary64 word)), 2 ^ 52 + (@unpackMantissa binary64 word).toNat,
        ((@unpackExponent binary64 word).toNat : ℤ) - 1075⟩ := by
    rw [← hsign, toNat_unpackMantissa, toNat_unpackExponent, ← hword]
    rfl
  have htop : (-1#11 : BitVec 11).toNat = 2047 := rfl
  rw [hunpack, hparts]
  fun_cases UnpackedFloat.unpack binary64 word
  case case1 h _ | case2 h _ =>
    rw [if_pos ((congrArg BitVec.toNat h).trans htop)]
    rfl
  case case3 hinf hzero hnil =>
    have hfraction : (@unpackMantissa binary64 word).toNat = 0 := congrArg BitVec.toNat hnil
    have hfield : (@unpackExponent binary64 word).toNat = 0 := congrArg BitVec.toNat hzero
    rw [if_neg (field_lt hinf).ne, if_pos hfield, hfraction]
    rfl
  case case4 hinf hzero _ =>
    have hfield : (@unpackExponent binary64 word).toNat = 0 := congrArg BitVec.toNat hzero
    have hexp : ((@unpackExponent binary64 word).toNat : ℤ) - 1075 + 1 = -1074 := by omega
    rw [if_neg (field_lt hinf).ne, if_pos hfield, ← hexp]
    rfl
  case case5 hinf hzero =>
    have hfield : (@unpackExponent binary64 word).toNat ≠ 0 := fun h => hzero (BitVec.eq_of_toNat_eq h)
    rw [if_neg (field_lt hinf).ne, if_neg hfield, ← toNat_full]
    rfl

theorem isFinite_iff_parts? : x.isFinite = true ↔ ∃ p, parts? x = some p := by
  show x.toModel.unpack.isFinite = true ↔ _
  rw [parts?_eq]
  cases x.toModel.unpack <;> simp [partsOf?, UnpackedFloat.isFinite]

theorem value_of_parts? (h : parts? x = some p) :
    -1074 ≤ p.exponent ∧ value x = p.signed * (2 ^ (p.exponent + 1074).toNat : ℕ) := by
  have hcanonical : Canonical x.toModel.unpack := canonical_unpack _
  rw [parts?_eq] at h
  rw [value]
  cases hu : x.toModel.unpack with
  | finite s m e hm =>
    rw [hu] at h hcanonical
    obtain rfl := Option.some.inj h
    refine ⟨hcanonical.1.least, (apply_magnitude s m e).trans ?_⟩
    cases s <;> rfl
  | zero s =>
    rw [hu] at h
    obtain rfl := Option.some.inj h
    refine ⟨le_rfl, ?_⟩
    cases s <;> rfl
  | infinity | notANumber =>
    rw [hu] at h
    cases h

end Parts

/-! ## Rational numbers -/

/-- The units of the number one. -/
def oneUnits : ℕ := magnitude 1 0

theorem two_pow_eq_mul_oneUnits {k j : ℕ} (h : k = j + 1074) : 2 ^ k = 2 ^ j * oneUnits := by
  have hexp : ((0 : ℤ) + 1074).toNat = 1074 := rfl
  rw [oneUnits, magnitude, Nat.one_mul, ← Nat.pow_add, h, hexp]

theorem oneUnits_pos : (0 : ℚ) < oneUnits := Nat.cast_pos.2 (magnitude_pos Nat.one_pos 0)

/-- The rational number that a finite double is. -/
def rational (x : Float) : ℚ := value x / oneUnits

section Rational

variable {x : Float} {p : Parts}

theorem Parts.toRat_eq_div (p : Parts) :
    p.toRat = (p.signed * (pow2 p.exponent.toNat : ℕ) : ℤ) / (pow2 (-p.exponent).toNat : ℕ) := by
  have hpow (k : ℕ) : ((pow2 k : ℕ) : ℚ) = 2 ^ k := Nat.cast_pow 2 k
  rw [toRat, Int.cast_mul, Int.cast_natCast, hpow, hpow, mul_div_assoc]
  congr 1
  rcases Int.eq_nat_or_neg p.exponent with ⟨k, hk | hk⟩
  · rw [hk, Int.toNat_natCast, Int.toNat_neg_natCast, zpow_natCast, pow_zero, div_one]
  · rw [hk, neg_neg, Int.toNat_natCast, Int.toNat_neg_natCast, zpow_neg, zpow_natCast, pow_zero, one_div]

/-- **The rational number of the parts** is that of the double. -/
theorem rational_of_parts? (h : parts? x = some p) : rational x = p.toRat := by
  obtain ⟨hleast, hvalue⟩ := value_of_parts? h
  have hexp : p.exponent = ((p.exponent + 1074).toNat : ℤ) - (1074 : ℕ) := by omega
  have hone : (oneUnits : ℚ) = 2 ^ 1074 := by rw [oneUnits, magnitude, Nat.one_mul]; exact Nat.cast_pow 2 _
  rw [rational, hvalue, Parts.toRat, hone, hexp, zpow_sub₀ two_ne_zero, zpow_natCast, zpow_natCast, ← hexp,
    Int.cast_mul, Int.cast_natCast, Nat.cast_pow, Nat.cast_ofNat, mul_div_assoc]

theorem lt_iff_rational {y : Float} (hx : x.isFinite = true) (hy : y.isFinite = true) :
    x < y ↔ rational x < rational y := by
  rw [lt_iff, and_iff_right ⟨isNaN_of_isFinite hx, isNaN_of_isFinite hy⟩, rational, rational,
    div_lt_div_iff_of_pos_right oneUnits_pos, Int.cast_lt]

/-! ### Integers -/

theorem signed_mul_eq_iff (s : Bool) {m a b : ℕ} {n : ℤ} (hb : 0 < b) (hone : a = 1 ∨ b = 1) :
    (if s then -(m : ℤ) else m) * a = n * b ↔
      m % b = 0 ∧ (if s then -((m * a / b : ℕ) : ℤ) else (m * a / b : ℕ)) = n := by
  have hdvd : m % b = 0 ↔ b ∣ m * a := by
    rw [← Nat.dvd_iff_mod_eq_zero]
    rcases hone with rfl | rfl
    · rw [Nat.mul_one]
    · exact iff_of_true (Nat.one_dvd m) (Nat.one_dvd (m * a))
  have hsign : (if s then -(m : ℤ) else m) * a = if s then -((m * a : ℕ) : ℤ) else (m * a : ℕ) := by
    cases s <;> simp
  rw [hdvd, hsign]
  generalize m * a = c
  constructor
  · intro h
    have hc : b ∣ c := by
      rw [← Int.natCast_dvd_natCast]
      cases s
      · exact ⟨n, h.trans (Int.mul_comm n b)⟩
      · refine ⟨-n, ?_⟩
        rw [Int.mul_neg, Int.mul_comm, ← h]
        exact (Int.neg_neg _).symm
    obtain ⟨q, rfl⟩ := hc
    refine ⟨Nat.dvd_mul_right b q, Int.eq_of_mul_eq_mul_right (Int.natCast_ne_zero.2 hb.ne') ?_⟩
    rw [← h, Nat.mul_div_cancel_left q hb]
    cases s <;> simp [Int.mul_comm]
  · rintro ⟨⟨q, rfl⟩, rfl⟩
    rw [Nat.mul_div_cancel_left q hb]
    cases s <;> simp [Int.mul_comm]

theorem Parts.toRat_eq_intCast_iff {n : ℤ} : p.toRat = n ↔ p.isIntegral = true ∧ p.truncate = n := by
  have hpos := pow2_pos (-p.exponent).toNat
  have hone : pow2 p.exponent.toNat = 1 ∨ pow2 (-p.exponent).toNat = 1 := by
    rcases Int.le_total 0 p.exponent with he | he
    · exact .inr (congrArg pow2 (Int.toNat_of_nonpos (by omega)))
    · exact .inl (congrArg pow2 (Int.toNat_of_nonpos he))
  rw [toRat_eq_div, div_eq_iff (Nat.cast_ne_zero.2 hpos.ne'), isIntegral, beq_iff_eq, truncate]
  exact_mod_cast signed_mul_eq_iff p.negative hpos hone

/-- **The doubles that are integers.** -/
theorem integer?_eq_some_iff {n : ℤ} : integer? x = some n ↔ x.isFinite = true ∧ rational x = n := by
  rw [isFinite_iff_parts?, integer?]
  cases h : parts? x with
  | none => simp
  | some p =>
    rw [rational_of_parts? h, Parts.toRat_eq_intCast_iff]
    by_cases hp : p.isIntegral = true <;> simp [hp]

/-- **The doubles that are written as integers**: those in the range of 64 bits and the number that follows it, which
is written as the last one of the range. -/
theorem int64?_eq_some_iff {k : ℤ} : int64? x = some k ↔ ∃ n : ℤ,
    x.isFinite = true ∧ rational x = n ∧ -2 ^ 63 ≤ n ∧ n ≤ 2 ^ 63 ∧ k = min n (2 ^ 63 - 1) := by
  have hpow : (pow2 63 : ℤ) = 2 ^ 63 := rfl
  rw [int64?, hpow]
  constructor
  · intro h
    cases hn : integer? x with
    | none =>
      rw [hn] at h
      cases h
    | some n =>
      rw [hn] at h
      obtain ⟨hrange, hk⟩ := Option.ite_none_right_eq_some.1 h
      obtain ⟨hx, hrational⟩ := integer?_eq_some_iff.1 hn
      exact ⟨n, hx, hrational, hrange.1, hrange.2, (Option.some.inj hk).symm⟩
  · rintro ⟨n, hx, hrational, hlow, hhigh, rfl⟩
    rw [integer?_eq_some_iff.2 ⟨hx, hrational⟩]
    exact if_pos ⟨hlow, hhigh⟩

end Rational

end BoardAtlas.Binary64
