import BoardAtlas.Proofs.Number.Rationals

/-!
# Natural numbers as doubles

A natural number below 2^64 is rounded to the nearest double once, when the word of the double is put together. Up to
2^53 nothing is rounded off; beyond, the double is a natural number that differs by at most one part in 2^53.

* `roundQuotient_bounds`, `roundQuotient_mul`: what rounding a quotient does to it;
* `unpack_ofBits`, `value_ofBits`: the double of a word, also of one whose mantissa has a bit too many;
* `nearestMantissa`, `ofNat_eq_ofBits`: the word of a natural number;
* `rational_ofNat_of_le`, `rational_ofNat_of_eq`: the double, with room for all bits of the number and with too little;
* **`ofNat_spec`**: the double nearest to a natural number.
-/

namespace BoardAtlas.Binary64

open Float.Model Float.Model.UnpackedFloat Float.Model.Format

/-! ## Quotients -/

section Quotient

variable (tie : Tie) {d : ℕ} (hd : 0 < d)

include hd

/-- **A quotient is rounded by at most a half.** -/
theorem roundQuotient_bounds (n : ℕ) :
    2 * (roundQuotient tie n d * d) ≤ 2 * n + d ∧ 2 * n ≤ 2 * (roundQuotient tie n d * d) + d := by
  have hn : n / d * d + n % d = n := Nat.div_add_mod' n d
  have hr := Nat.mod_lt n hd
  have hround : roundQuotient tie n d = n / d ∧ 2 * (n % d) ≤ d ∨
      roundQuotient tie n d = n / d + 1 ∧ d ≤ 2 * (n % d) := by
    unfold roundQuotient
    dsimp only
    repeat' split
    all_goals omega
  rcases hround with ⟨hq, hle⟩ | ⟨hq, hle⟩
  · rw [hq]
    omega
  · have hnext : (n / d + 1) * d = n / d * d + d := Nat.succ_mul (n / d) d
    rw [hq, hnext]
    omega

theorem le_roundQuotient {n a : ℕ} (h : a * d ≤ n) : a ≤ roundQuotient tie n d := by
  have hbounds := roundQuotient_bounds tie hd n
  have hlt : 2 * a * d < (2 * roundQuotient tie n d + 2) * d := by
    rw [Nat.add_mul, Nat.mul_assoc, Nat.mul_assoc]
    omega
  have := Nat.lt_of_mul_lt_mul_right hlt
  omega

theorem roundQuotient_le {n b : ℕ} (h : n ≤ b * d) : roundQuotient tie n d ≤ b := by
  have hbounds := roundQuotient_bounds tie hd n
  have hlt : 2 * roundQuotient tie n d * d < (2 * b + 2) * d := by
    rw [Nat.add_mul, Nat.mul_assoc, Nat.mul_assoc]
    omega
  have := Nat.lt_of_mul_lt_mul_right hlt
  omega

theorem roundQuotient_mul (q : ℕ) : roundQuotient tie (q * d) d = q :=
  Nat.le_antisymm (roundQuotient_le tie hd le_rfl) (le_roundQuotient tie hd le_rfl)

end Quotient

/-! ## Words with a full mantissa -/

section Words

variable {f m : ℕ}

theorem ofNat_eq_packComponents (hfull : 2 ^ 52 ≤ m) (hlt : m < 2 ^ 53) (hf : f ≤ 2045) :
    BitVec.ofNat 64 (f * 2 ^ 52 + m) =
      packComponents binary64 .positive (BitVec.ofNat 11 (f + 1)) (BitVec.ofNat 52 m) := by
  have hpack : (packComponents binary64 .positive (BitVec.ofNat 11 (f + 1)) (BitVec.ofNat 52 m)).toNat =
      ((0#1 ++ BitVec.ofNat 11 (f + 1)) ++ BitVec.ofNat 52 m).toNat := rfl
  apply BitVec.eq_of_toNat_eq
  rw [hpack, BitVec.toNat_append, BitVec.toNat_append, BitVec.toNat_ofNat, BitVec.toNat_ofNat, BitVec.toNat_ofNat,
    BitVec.toNat_ofNat, Nat.mod_eq_of_lt (by omega : f * 2 ^ 52 + m < 2 ^ 64),
    Nat.mod_eq_of_lt (by omega : f + 1 < 2 ^ 11), ← Nat.shiftLeft_add_eq_or_of_lt (Nat.mod_lt m (by decide)),
    Nat.shiftLeft_eq, Nat.zero_mod, Nat.zero_shiftLeft, Nat.zero_or]
  omega

theorem toModel_ofBits (word : UInt64) : (Float.ofBits word).toModel.unpack =
    UnpackedFloat.unpack binary64 (UnpackedFloat.pack binary64 (UnpackedFloat.unpack binary64 word.toBitVec)) := rfl

theorem unpack_ofBits (hm : 0 < m) (hfull : 2 ^ 52 ≤ m) (hlt : m < 2 ^ 53) (hf : f ≤ 2045) :
    (Float.ofBits (UInt64.ofNat (f * 2 ^ 52 + m))).toModel.unpack = .finite .positive m (f - 1074) hm := by
  have hfield : f + 1 = ((f : ℤ) - 1074 + 1075).toNat := by omega
  have hword : (UInt64.ofNat (f * 2 ^ 52 + m)).toBitVec = BitVec.ofNat 64 (f * 2 ^ 52 + m) := rfl
  have hunpack : UnpackedFloat.unpack binary64 _ = .finite .positive m (f - 1074) hm :=
    unpack_normal .positive hfull hlt (by omega) (by omega)
  rw [toModel_ofBits, hword, ofNat_eq_packComponents hfull hlt hf, hfield, hunpack,
    unpack_pack_finite ⟨hlt, by omega, .inr hfull⟩, if_neg (by omega)]

theorem value_ofBits_of_lt (hfull : 2 ^ 52 ≤ m) (hlt : m < 2 ^ 53) (hf : f ≤ 2045) :
    (Float.ofBits (UInt64.ofNat (f * 2 ^ 52 + m))).isFinite = true ∧
      value (Float.ofBits (UInt64.ofNat (f * 2 ^ 52 + m))) = (m * 2 ^ f : ℕ) := by
  have hunpack := unpack_ofBits (by omega) hfull hlt hf
  have hexp : ((f : ℤ) - 1074 + 1074).toNat = f := by omega
  refine ⟨congrArg UnpackedFloat.isFinite hunpack, (congrArg units hunpack).trans ?_⟩
  show ((magnitude m (f - 1074) : ℕ) : ℤ) = _
  rw [magnitude, hexp]

/-- A mantissa that has got one bit too many moves on to the next exponent in the word by itself. -/
theorem value_ofBits (hfull : 2 ^ 52 ≤ m) (hle : m ≤ 2 ^ 53) (hf : f < 2045) :
    (Float.ofBits (UInt64.ofNat (f * 2 ^ 52 + m))).isFinite = true ∧
      value (Float.ofBits (UInt64.ofNat (f * 2 ^ 52 + m))) = (m * 2 ^ f : ℕ) := by
  rcases Nat.lt_or_eq_of_le hle with hlt | rfl
  · exact value_ofBits_of_lt hfull hlt hf.le
  · have hword : f * 2 ^ 52 + 2 ^ 53 = (f + 1) * 2 ^ 52 + 2 ^ 52 := by omega
    have hnumber : 2 ^ 53 * 2 ^ f = 2 ^ 52 * 2 ^ (f + 1) := by rw [Nat.pow_succ 2 f]; omega
    rw [hword, hnumber]
    exact value_ofBits_of_lt le_rfl (by decide) hf

end Words

/-! ## The nearest double -/

/-- The mantissa of the double nearest to a positive number. -/
def nearestMantissa (n : ℕ) : ℕ := roundQuotient .even (n * 2 ^ (52 - n.log2)) (2 ^ (n.log2 - 52))

theorem rational_eq_of_value {x : Float} {w : ℕ} (h : value x = (w * oneUnits : ℕ)) : rational x = w := by
  rw [rational, h, Int.cast_natCast, Nat.cast_mul, mul_div_cancel_right₀ _ oneUnits_pos.ne']

section Nearest

variable {n : ℕ} (hn : 0 < n)

include hn

theorem binaryOrder_one : binaryOrder n 1 = n.log2 := by
  have hle := Nat.log2_self_le hn.ne'
  have hlog : Nat.log2 1 = 0 := by decide
  rw [binaryOrder, hlog, Int.natCast_zero, Int.sub_zero, Int.toNat_natCast, Int.toNat_neg_natCast, if_neg]
  show ¬ n * 1 < 1 * 2 ^ n.log2
  omega

theorem log2_scaled :
    2 ^ 52 * 2 ^ (n.log2 - 52) ≤ n * 2 ^ (52 - n.log2) ∧ n * 2 ^ (52 - n.log2) ≤ 2 ^ 53 * 2 ^ (n.log2 - 52) := by
  have hpow : 2 ^ 52 * 2 ^ (n.log2 - 52) = 2 ^ n.log2 * 2 ^ (52 - n.log2) := by
    rw [← Nat.pow_add, ← Nat.pow_add]
    congr 1
    omega
  have hnext : 2 ^ 53 * 2 ^ (n.log2 - 52) = 2 ^ (n.log2 + 1) * 2 ^ (52 - n.log2) := by
    rw [← Nat.pow_add, ← Nat.pow_add]
    congr 1
    omega
  rw [hpow, hnext]
  exact ⟨Nat.mul_le_mul_right _ (Nat.log2_self_le hn.ne'), Nat.mul_le_mul_right _ Nat.lt_log2_self.le⟩

theorem nearestMantissa_bounds : 2 ^ 52 ≤ nearestMantissa n ∧ nearestMantissa n ≤ 2 ^ 53 :=
  ⟨le_roundQuotient .even (Nat.two_pow_pos _) (log2_scaled hn).1,
    roundQuotient_le .even (Nat.two_pow_pos _) (log2_scaled hn).2⟩

/-- The word of the double nearest to a positive number of 64 bits. -/
theorem ofNat_eq_ofBits (hlog : n.log2 < 64) :
    ofNat n = Float.ofBits (UInt64.ofNat ((n.log2 + 1022) * 2 ^ 52 + nearestMantissa n)) := by
  have hexp : max ((n.log2 : ℤ) - 52) (-1074) = n.log2 - 52 := by omega
  have hneg : (-((n.log2 : ℤ) - 52)).toNat = 52 - n.log2 := by omega
  have hpos : ((n.log2 : ℤ) - 52).toNat = n.log2 - 52 := by omega
  have hfield : ((n.log2 : ℤ) - 52 + 1074).toNat = n.log2 + 1022 := by omega
  have hpow : pow2 52 = 2 ^ 52 := rfl
  have hmantissa : roundQuotient .even (n * pow2 (52 - n.log2)) (pow2 (n.log2 - 52)) = nearestMantissa n := rfl
  have hle := (nearestMantissa_bounds hn).2
  rw [ofNat, ofRatio, if_neg (by omega)]
  dsimp only
  rw [binaryOrder_one hn, hexp, hneg, hpos, hfield, Nat.one_mul, if_neg Bool.false_ne_true, Nat.zero_add, hmantissa,
    hpow, Nat.min_eq_left (by omega)]

theorem value_ofNat (hlog : n.log2 < 64) :
    (ofNat n).isFinite = true ∧ value (ofNat n) = (nearestMantissa n * 2 ^ (n.log2 + 1022) : ℕ) := by
  obtain ⟨hfull, hle⟩ := nearestMantissa_bounds hn
  rw [ofNat_eq_ofBits hn hlog]
  exact value_ofBits hfull hle (by omega)

/-- A mantissa with room for the number is the number with zeros behind it. -/
theorem rational_ofNat_of_le (hlog : n.log2 ≤ 52) : rational (ofNat n) = n := by
  have hmantissa : nearestMantissa n = n * 2 ^ (52 - n.log2) := by
    rw [nearestMantissa, Nat.sub_eq_zero_of_le hlog]
    exact (congrArg (roundQuotient _ · 1) (Nat.mul_one _).symm).trans (roundQuotient_mul .even Nat.one_pos _)
  have hexp : 52 - n.log2 + (n.log2 + 1022) = 0 + 1074 := by omega
  refine rational_eq_of_value ?_
  rw [(value_ofNat hn (by omega)).2, hmantissa, Nat.mul_assoc, ← Nat.pow_add, two_pow_eq_mul_oneUnits hexp,
    Nat.pow_zero, Nat.one_mul]

/-- A mantissa with too little room is the number with its last bits rounded off. -/
theorem rational_ofNat_of_eq {j : ℕ} (hj : n.log2 = 52 + j) (hlog : n.log2 < 64) :
    rational (ofNat n) = (roundQuotient .even n (2 ^ j) * 2 ^ j : ℕ) := by
  have hmantissa : nearestMantissa n = roundQuotient .even n (2 ^ j) := by
    rw [nearestMantissa, hj, Nat.add_sub_cancel_left, Nat.sub_eq_zero_of_le (Nat.le_add_right 52 j), Nat.pow_zero,
      Nat.mul_one]
  have hexp : n.log2 + 1022 = j + 1074 := by omega
  refine rational_eq_of_value ?_
  rw [(value_ofNat hn hlog).2, hmantissa, two_pow_eq_mul_oneUnits hexp, Nat.mul_assoc]

end Nearest

/-- **The double nearest to a natural number of 64 bits** is a natural number, that number itself as far as there are
doubles for all of them. -/
theorem ofNat_spec {n : ℕ} (hn : n < 2 ^ 64) : (ofNat n).isFinite = true ∧ ∃ w : ℕ, rational (ofNat n) = w ∧
    (n ≤ 2 ^ 53 → w = n) ∧ 2 ^ 53 * w ≤ 2 ^ 53 * n + n ∧ 2 ^ 53 * n ≤ 2 ^ 53 * w + n := by
  rcases Nat.eq_zero_or_pos n with rfl | hpos
  · have hzero : value (ofNat 0) = 0 := rfl
    exact ⟨rfl, 0, rational_eq_of_value (hzero.trans (by rw [Nat.zero_mul]; rfl)), fun _ => rfl, le_rfl, le_rfl⟩
  have hlog : n.log2 < 64 := (Nat.log2_lt hpos.ne').2 hn
  refine ⟨(value_ofNat hpos hlog).1, ?_⟩
  by_cases h : n.log2 ≤ 52
  · exact ⟨n, rational_ofNat_of_le hpos h, fun _ => rfl, Nat.le_add_right _ _, Nat.le_add_right _ _⟩
  · obtain ⟨j, hj⟩ := Nat.exists_eq_add_of_le (Nat.not_le.1 h).le
    have hbounds := roundQuotient_bounds .even (Nat.two_pow_pos j) n
    have hlow : 2 ^ 52 * 2 ^ j ≤ n := by
      rw [← Nat.pow_add, ← hj]
      exact Nat.log2_self_le hpos.ne'
    refine ⟨_, rational_ofNat_of_eq hpos hj hlog, fun hsmall => ?_, by omega, by omega⟩
    -- Only 2 ^ 53 itself is left, which has a zero at its end.
    obtain rfl : n = 2 ^ 53 := by
      have := Nat.log2_self_le hpos.ne'
      have := Nat.pow_le_pow_right (by decide : 0 < 2) (by omega : 53 ≤ n.log2)
      omega
    obtain rfl : j = 1 := by
      rw [Nat.log2_two_pow] at hj
      omega
    rfl

end BoardAtlas.Binary64
