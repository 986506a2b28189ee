import BoardAtlas.Proofs.Number.Order

/-!
# Rounded doubles

A number of units is rounded to as many bits as a mantissa has. Rounding does not pass over a double: what is below the
exact number is not above the rounded one.

* `Representable`, `RoundsTo`, `RoundsTo.between`: numbers with the bits of a mantissa, and what lies between;
* `roundWithAccuracy_spec`, **`round_spec`**: mantissas with some bits rounded off;
* `Approximates`, **`stored_spec`**: what is rounded, and what is stored of it.
-/

namespace BoardAtlas.Binary64

open Float.Model Float.Model.UnpackedFloat Float.Model.Format

/-! ## Rounded numbers -/

/-- The number has no more bits than a mantissa, but for zeros at its end. -/
def Representable (n : ℕ) : Prop := ∃ m k, m < 2 ^ 53 ∧ n = m * 2 ^ k

/-- The number is rounded to a multiple of a power of two, up or down, and is only changed when it has more bits than a
mantissa. -/
structure RoundsTo (n r : ℕ) (k : ℕ) (q : ℕ) : Prop where
  eq : r = q * 2 ^ k
  down : n / 2 ^ k ≤ q
  up : q ≤ n / 2 ^ k + 1
  exact : 2 ^ k ∣ n → q = n / 2 ^ k
  full : k = 0 ∨ 2 ^ 52 ≤ n / 2 ^ k

section Rounding

variable {n r k q c : ℕ}

/-- **Rounding does not pass over a number** with no more bits than a mantissa. -/
theorem RoundsTo.between (h : RoundsTo n r k q) (hc : Representable c) : (c ≤ n → c ≤ r) ∧ (n ≤ c → r ≤ c) := by
  obtain ⟨rfl, hdown, hup, hexact, hfull⟩ := h
  obtain ⟨m, j, hm, rfl⟩ := hc
  have hunit : 0 < 2 ^ k := Nat.two_pow_pos k
  by_cases hj : k ≤ j
  · -- The number is a multiple of the power of two itself.
    obtain ⟨d, rfl⟩ := Nat.exists_eq_add_of_le hj
    have hmul : m * 2 ^ (k + d) = m * 2 ^ d * 2 ^ k := by rw [Nat.pow_add, Nat.mul_assoc, Nat.mul_comm (2 ^ d)]
    rw [hmul]
    constructor
    · intro hle
      exact Nat.mul_le_mul_right _ (((Nat.le_div_iff_mul_le hunit).2 hle).trans hdown)
    · intro hle
      refine Nat.mul_le_mul_right _ ?_
      by_cases hdvd : 2 ^ k ∣ n
      · rw [hexact hdvd]
        exact Nat.div_le_of_le_mul (by rwa [Nat.mul_comm])
      · have hne : n ≠ m * 2 ^ d * 2 ^ k := fun he => hdvd ⟨m * 2 ^ d, by rw [he, Nat.mul_comm]⟩
        have hlt : n / 2 ^ k < m * 2 ^ d := (Nat.div_lt_iff_lt_mul hunit).2 (lt_of_le_of_ne hle hne)
        omega
  · -- The number is smaller than all that is changed by rounding.
    have hbits := hfull.resolve_left (by omega)
    have hsmall : m * 2 ^ j < 2 ^ 52 * 2 ^ k := by
      calc m * 2 ^ j < 2 ^ 53 * 2 ^ j := Nat.mul_lt_mul_of_pos_right hm (Nat.two_pow_pos j)
        _ = 2 ^ 52 * 2 ^ (j + 1) := by rw [Nat.pow_succ 2 j]; omega
        _ ≤ 2 ^ 52 * 2 ^ k := Nat.mul_le_mul_left _ (Nat.pow_le_pow_right (by decide) (by omega))
    have hn : 2 ^ 52 * 2 ^ k ≤ n := (Nat.le_div_iff_mul_le hunit).1 hbits
    have hr : 2 ^ 52 * 2 ^ k ≤ q * 2 ^ k := Nat.mul_le_mul_right _ (hbits.trans hdown)
    omega

theorem RoundsTo.between_apply (h : RoundsTo n r k q) (s : Sign) {z : ℤ} (hz : Representable z.natAbs) :
    (z ≤ s.apply n → z ≤ s.apply r) ∧ (s.apply n ≤ z → s.apply r ≤ z) := by
  obtain ⟨hbelow, habove⟩ := h.between hz
  cases s <;> simp only [Sign.apply] <;> omega

end Rounding

/-! ## Rounded mantissas -/

section Mantissas

variable {m q : ℕ} {e t : ℤ}

theorem mantissa_shiftRight (em : ExtendedMantissa) (k : ℕ) : (em >>> k).mantissa = em.mantissa / 2 ^ k := by
  induction k with
  | zero => exact (Nat.div_one _).symm
  | succ k ih =>
    show (em >>> k).mantissa / 2 = _
    rw [ih, Nat.div_div_eq_div_mul, Nat.pow_succ]

theorem shiftRight_of_dvd {k : ℕ} (h : 2 ^ k ∣ m) :
    (⟨m, false, false⟩ : ExtendedMantissa) >>> k = ⟨m / 2 ^ k, false, false⟩ := by
  induction k with
  | zero =>
    rw [Nat.pow_zero, Nat.div_one]
    rfl
  | succ k ih =>
    have hdvd : 2 ∣ m / 2 ^ k := Nat.dvd_div_of_mul_dvd (by rwa [← Nat.pow_succ])
    have hbit : (m / 2 ^ k % 2 != 0) = false := by
      rw [Nat.mod_eq_zero_of_dvd hdvd]
      rfl
    show ((ExtendedMantissa.mk m false false) >>> k).shiftRightOne = _
    rw [ih (Nat.dvd_trans (Nat.pow_dvd_pow 2 (Nat.le_succ k)) h), ExtendedMantissa.shiftRightOne, hbit,
      Nat.div_div_eq_div_mul, ← Nat.pow_succ]
    rfl

theorem roundedMantissa_bounds (em : ExtendedMantissa) :
    em.mantissa ≤ em.roundedMantissa ∧ em.roundedMantissa ≤ em.mantissa + 1 := by
  unfold ExtendedMantissa.roundedMantissa
  rcases em.accuracy with _ | (_ | _ | _) <;> simp only [Accuracy.roundToNearestEven] <;> omega

/-- An unpacked double that is finite, but for the largest exponent. -/
def Rounded : UnpackedFloat → Prop
  | .finite _ m e _ => Shaped m e
  | .zero _ => True
  | _ => False

/-- A rounded mantissa with its carry moved into the exponent. -/
def carried (s : Sign) (q : ℕ) (t : ℤ) : UnpackedFloat :=
  let (em, e) := shiftToTargetExponent binary64 q t .exact
  if h : em.mantissa = 0 then .zero s else .finite s em.mantissa e (Nat.pos_of_ne_zero h)

theorem carried_of_shift (s : Sign) {k : ℕ} (hk : (max (q.log2 + 1 + t - 53) (-1074) - t).toNat = k) (hdvd : 2 ^ k ∣ q)
    (hshape : Shaped (q / 2 ^ k) (t + k)) (hsame : magnitude (q / 2 ^ k) (t + k) = magnitude q t) :
    Rounded (carried s q t) ∧ units (carried s q t) = s.apply (magnitude q t) := by
  have hshift : shiftToTargetExponent binary64 q t .exact = (⟨q / 2 ^ k, false, false⟩, t + k) := by
    rw [← shiftRight_of_dvd hdvd, ← hk]
    rfl
  rw [carried, hshift]
  dsimp only
  split
  · next hzero =>
    rw [← hsame, hzero]
    refine ⟨trivial, ?_⟩
    rw [magnitude, Nat.zero_mul]
    cases s <;> rfl
  · exact ⟨hshape, by rw [← hsame]; rfl⟩

theorem carried_spec (s : Sign) (ht : -1074 ≤ t) (hq : q ≤ 2 ^ 53) (hfull : t = -1074 ∨ 2 ^ 52 ≤ q) :
    Rounded (carried s q t) ∧ units (carried s q t) = s.apply (magnitude q t) := by
  rcases Nat.lt_or_eq_of_le hq with hlt | rfl
  · have hlog : q.log2 < 53 := by
      rcases Nat.eq_zero_or_pos q with rfl | hpos
      · decide
      · exact (Nat.log2_lt hpos.ne').2 hlt
    have hdiv : q / 2 ^ 0 = q := by rw [Nat.pow_zero, Nat.div_one]
    have hexp : t + (0 : ℕ) = t := Int.add_zero t
    refine carried_of_shift (k := 0) s (by omega) (Nat.one_dvd q) ?_ ?_
    · rw [hdiv, hexp]
      exact ⟨hlt, ht, hfull⟩
    · rw [hdiv, hexp]
  · have hlog : (2 ^ 53).log2 = 53 := Nat.log2_two_pow
    refine carried_of_shift (k := 1) s (by omega) ⟨2 ^ 52, rfl⟩ ⟨by decide, by omega, .inr (by decide)⟩ ?_
    exact (magnitude_carry ht).symm

/-- **Rounding a mantissa**: it loses the bits that its target exponent has no room for, and becomes the next one or
not. -/
theorem roundWithAccuracy_spec (s : Sign) (acc : Accuracy) (hm : 0 < m ∨ t = -1074) (he : -1074 ≤ e)
    (ht : t = max (m.log2 + 1 + e - 53) (-1074)) (het : e ≤ t) :
    ∃ q, m / 2 ^ (t - e).toNat ≤ q ∧ q ≤ m / 2 ^ (t - e).toNat + 1 ∧
      (acc = .exact → 2 ^ (t - e).toNat ∣ m → q = m / 2 ^ (t - e).toNat) ∧
      (t = -1074 ∨ 2 ^ 52 ≤ m / 2 ^ (t - e).toNat) ∧ q ≤ 2 ^ 53 ∧
      Rounded (roundWithAccuracy binary64 s m e acc) ∧
      units (roundWithAccuracy binary64 s m e acc) = s.apply (magnitude q t) := by
  obtain ⟨k, hk⟩ : ∃ k, (t - e).toNat = k := ⟨_, rfl⟩
  have hexp : e + (k : ℤ) = t := by omega
  have hround : roundWithAccuracy binary64 s m e acc =
      carried s (ExtendedMantissa.ofMantissaAndAccuracy m acc >>> k).roundedMantissa (e + k) := by
    rw [← hk, ht]
    rfl
  rw [hk, hround, hexp]
  have hmantissa : (ExtendedMantissa.ofMantissaAndAccuracy m acc).mantissa = m := by
    rcases acc with _ | (_ | _ | _) <;> rfl
  obtain ⟨hdown, hup⟩ := roundedMantissa_bounds (ExtendedMantissa.ofMantissaAndAccuracy m acc >>> k)
  rw [mantissa_shiftRight, hmantissa] at hdown hup
  -- What is left has the bits of a mantissa.
  have hhigh := Nat.lt_log2_self (n := m)
  have hlt : m / 2 ^ k < 2 ^ 53 := by
    rw [Nat.div_lt_iff_lt_mul (Nat.two_pow_pos k), ← Nat.pow_add]
    exact hhigh.trans_le (Nat.pow_le_pow_right (by decide) (by omega))
  have hfull : t = -1074 ∨ 2 ^ 52 ≤ m / 2 ^ k := by
    by_cases hleast : t = -1074
    · exact .inl hleast
    · refine .inr ((Nat.le_div_iff_mul_le (Nat.two_pow_pos k)).2 ?_)
      rw [← Nat.pow_add]
      exact (Nat.pow_le_pow_right (by decide) (by omega)).trans (Nat.log2_self_le (hm.resolve_right hleast).ne')
  obtain ⟨hshape, hunits⟩ := carried_spec (q := (ExtendedMantissa.ofMantissaAndAccuracy m acc >>> k).roundedMantissa) s
    (he.trans het) (by omega) (hfull.imp_right fun h => h.trans hdown)
  refine ⟨_, hdown, hup, ?_, hfull, by omega, hshape, hunits⟩
  rintro rfl hdvd
  have hexact := shiftRight_of_dvd hdvd
  show (ExtendedMantissa.mk m false false >>> k).roundedMantissa = _
  rw [hexact]
  rfl

theorem log2_shiftLeft (hm : 0 < m) (k : ℕ) : (m <<< k).log2 = m.log2 + k := by
  rw [Nat.shiftLeft_eq, Nat.log2_eq_iff (Nat.mul_pos hm (Nat.two_pow_pos k)).ne', Nat.pow_add, Nat.add_right_comm,
    Nat.pow_add]
  exact ⟨Nat.mul_le_mul_right _ (Nat.log2_self_le hm.ne'),
    Nat.mul_lt_mul_of_pos_right Nat.lt_log2_self (Nat.two_pow_pos k)⟩

theorem magnitude_shiftLeft {k : ℕ} (he : -1074 ≤ e - k) : magnitude (m <<< k) (e - k) = magnitude m e := by
  have hexp : (e + 1074).toNat = k + (e - k + 1074).toNat := by omega
  rw [magnitude, magnitude, Nat.shiftLeft_eq, hexp, Nat.pow_add, Nat.mul_assoc]

/-- **Rounding a number of units.** -/
theorem round_spec (s : Sign) (hm : 0 < m) (he : -1074 ≤ e) :
    ∃ r k q, RoundsTo (magnitude m e) r k q ∧ Rounded (UnpackedFloat.round binary64 s m e) ∧
      units (UnpackedFloat.round binary64 s m e) = s.apply r := by
  obtain ⟨t, ht⟩ : ∃ t, max (m.log2 + 1 + e - 53) (-1074) = t := ⟨_, rfl⟩
  obtain ⟨d, hd⟩ : ∃ d, (e - t).toNat = d := ⟨_, rfl⟩
  have hround : UnpackedFloat.round binary64 s m e = roundWithAccuracy binary64 s (m <<< d) (e - d) .exact := by
    rw [← hd, ← ht]
    rfl
  have hpos : 0 < m <<< d := by
    rw [Nat.shiftLeft_eq]
    exact Nat.mul_pos hm (Nat.two_pow_pos d)
  have hlog := log2_shiftLeft hm d
  have hleast : -1074 ≤ e - d := by omega
  obtain ⟨q, hdown, hup, hexact, hfull, -, hshape, hunits⟩ :=
    roundWithAccuracy_spec (t := t) s .exact (.inl hpos) hleast (by omega) (by omega)
  obtain ⟨j, hj⟩ : ∃ j, (t - (e - d)).toNat = j := ⟨_, rfl⟩
  obtain ⟨i, hi⟩ : ∃ i, (e - d + 1074).toNat = i := ⟨_, rfl⟩
  rw [hj] at hdown hup hexact hfull
  have hunit : 2 ^ (t + 1074).toNat = 2 ^ j * 2 ^ i := by
    rw [← Nat.pow_add]
    congr 1
    omega
  have hmag : magnitude m e = m <<< d * 2 ^ i := by rw [← magnitude_shiftLeft hleast, magnitude, hi]
  have hquot : magnitude m e / 2 ^ (t + 1074).toNat = m <<< d / 2 ^ j := by
    rw [hmag, hunit, Nat.mul_div_mul_right _ _ (Nat.two_pow_pos i)]
  rw [hround]
  refine ⟨magnitude q t, (t + 1074).toNat, q, ⟨rfl, ?_, ?_, ?_, ?_⟩, hshape, hunits⟩
  · rwa [hquot]
  · rwa [hquot]
  · intro hdvd
    rw [hmag, hunit] at hdvd
    rw [hquot, hexact rfl (Nat.dvd_of_mul_dvd_mul_right (Nat.two_pow_pos i) hdvd)]
  · rw [hquot]
    exact hfull.imp_left fun hleast => by omega

end Mantissas

/-! ## Rounded units -/

section Units

/-- **What a number of units becomes**: it is finite but for the largest exponent, and rounding it does not pass over a
representable number. -/
def Approximates (u : UnpackedFloat) (n : ℤ) : Prop :=
  Rounded u ∧ ∀ z : ℤ, Representable z.natAbs → (z ≤ n → z ≤ units u) ∧ (n ≤ z → units u ≤ z)

theorem approximates_round (s : Sign) {m : ℕ} {e : ℤ} (hm : 0 < m) (he : -1074 ≤ e) :
    Approximates (UnpackedFloat.round binary64 s m e) (s.apply (magnitude m e)) := by
  obtain ⟨r, k, q, hr, hshape, hunits⟩ := round_spec s hm he
  refine ⟨hshape, fun z hz => ?_⟩
  rw [hunits]
  exact hr.between_apply s hz

theorem approximates_self {a : UnpackedFloat} (h : Rounded a) {n : ℤ} (hn : units a = n) : Approximates a n :=
  ⟨h, fun _ _ => by rw [hn]; exact ⟨id, id⟩⟩

theorem isFinite_of_rounded {u : UnpackedFloat} (h : Rounded u) : u.isFinite = true := by
  cases u with
  | finite | zero => rfl
  | infinity | notANumber => cases h

/-- **What is stored of an approximation** is a number, and no finite double is passed over either. -/
theorem stored_spec {u : UnpackedFloat} {n : ℤ} (h : Approximates u n) :
    let v := UnpackedFloat.unpack binary64 (UnpackedFloat.pack binary64 u)
    v ≠ .notANumber ∧ ∀ z : ℤ, Representable z.natAbs → -limit < z → z < limit →
      (z ≤ n → z ≤ units v) ∧ (n ≤ z → units v ≤ z) := by
  obtain ⟨hshape, hbetween⟩ := h
  cases u with
  | infinity | notANumber => cases hshape
  | zero s =>
    have hstored := unpack_packedZero s
    change UnpackedFloat.unpack binary64 (UnpackedFloat.pack binary64 (.zero s)) = _ at hstored
    rw [hstored]
    exact ⟨by simp, fun z hz _ _ => hbetween z hz⟩
  | finite s m e hm =>
    rw [unpack_pack_finite hshape]
    split
    · next he =>
      have hlarge := hshape.limit_le_magnitude he
      refine ⟨by simp, fun z hz hlow hhigh => ?_⟩
      obtain ⟨hbelow, habove⟩ := hbetween z hz
      cases s <;> simp only [units, Sign.apply] at * <;> omega
    · exact ⟨by simp, fun z hz _ _ => hbetween z hz⟩

theorem stored_of_lt {s : Sign} {n : ℕ} {u : UnpackedFloat} (h : Rounded u) (hu : units u = s.apply n)
    (hn : n < limit) : UnpackedFloat.unpack binary64 (UnpackedFloat.pack binary64 u) = u := by
  cases u with
  | infinity | notANumber => cases h
  | zero s' => exact unpack_packedZero s'
  | finite s' m e hm =>
    rw [unpack_pack_finite h, if_neg]
    intro he
    have hlarge := h.limit_le_magnitude he
    cases s <;> cases s' <;> simp only [units, Sign.apply] at hu <;> omega

end Units

end BoardAtlas.Binary64
