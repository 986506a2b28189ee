import BoardAtlas.Proofs.Number.Rounding

/-!
# Sums of doubles

The units of a sum are added exactly and rounded once, so that no double lies between the exact and the rounded sum.

* `approximates_add`, `sub_eq_add_neg`: sums of units, and differences as sums;
* **`add_spec`**, **`sub_spec`**: sums and differences of finite doubles;
* `isNaN_add`, `isNaN_sub`, `le_add`, `sub_le`: adding to a number, finite or not;
* `div_unpackedPower`, `half_spec`: dividing by a power of two, and half of a double.
-/

namespace BoardAtlas.Binary64

open Float.Model Float.Model.UnpackedFloat Float.Model.Format

/-! ## Sums -/

section Sums

variable {a b : UnpackedFloat} {z : ℤ}

theorem apply_magnitude (s : Sign) (m : ℕ) (e : ℤ) :
    s.apply (magnitude m e) = s.apply m * (2 ^ (e + 1074).toNat : ℕ) := by
  cases s <;> simp only [Sign.apply, magnitude, Int.natCast_mul, Int.neg_mul]

theorem approximates_normalize {n e : ℤ} (he : -1074 ≤ e) (s : Sign) :
    Approximates (UnpackedFloat.normalize binary64 n e s) (n * (2 ^ (e + 1074).toNat : ℕ)) := by
  unfold UnpackedFloat.normalize
  split
  · next hlt =>
    have hneg := Int.compare_eq_lt.1 hlt
    have hround := approximates_round .negative (m := (-n).toNat) (by omega) he
    have hsame : Sign.negative.apply (magnitude (-n).toNat e) = n * (2 ^ (e + 1074).toNat : ℕ) := by
      rw [apply_magnitude, Int.toNat_of_nonneg (by omega)]
      simp only [Sign.apply, Int.neg_neg]
    rwa [hsame] at hround
  · next heq =>
    rw [Int.compare_eq_eq.1 heq, Int.zero_mul]
    exact ⟨trivial, fun z _ => ⟨id, id⟩⟩
  · next hgt =>
    have hpos := Int.compare_eq_gt.1 hgt
    have hround := approximates_round .positive (m := n.toNat) (by omega) he
    have hsame : Sign.positive.apply (magnitude n.toNat e) = n * (2 ^ (e + 1074).toNat : ℕ) := by
      rw [apply_magnitude, Int.toNat_of_nonneg hpos.le]
      rfl
    rwa [hsame] at hround

/-- **The sum of finite doubles** approximates the sum of their units. -/
theorem approximates_add_finite {s₁ s₂ : Sign} {m₁ m₂ : ℕ} {e₁ e₂ : ℤ} {hm₁ : 0 < m₁} {hm₂ : 0 < m₂} (h₁ : Shaped m₁ e₁)
    (h₂ : Shaped m₂ e₂) :
    Approximates (UnpackedFloat.add binary64 (.finite s₁ m₁ e₁ hm₁) (.finite s₂ m₂ e₂ hm₂))
      (s₁.apply (magnitude m₁ e₁) + s₂.apply (magnitude m₂ e₂)) := by
  have hleast₁ := h₁.least
  have hleast₂ := h₂.least
  obtain ⟨d₁, hd₁⟩ : ∃ d₁, (e₁ - min e₁ e₂).toNat = d₁ := ⟨_, rfl⟩
  obtain ⟨d₂, hd₂⟩ : ∃ d₂, (e₂ - min e₁ e₂).toNat = d₂ := ⟨_, rfl⟩
  have hadd : UnpackedFloat.add binary64 (.finite s₁ m₁ e₁ hm₁) (.finite s₂ m₂ e₂ hm₂) =
      UnpackedFloat.normalize binary64 (s₁.apply ↑(m₁ <<< d₁) + s₂.apply ↑(m₂ <<< d₂)) (min e₁ e₂) .positive := by
    rw [← hd₁, ← hd₂]
    rfl
  have hexp₁ : e₁ - d₁ = min e₁ e₂ := by omega
  have hexp₂ : e₂ - d₂ = min e₁ e₂ := by omega
  have happrox := approximates_normalize (n := s₁.apply ↑(m₁ <<< d₁) + s₂.apply ↑(m₂ <<< d₂)) (e := min e₁ e₂)
    (by omega) .positive
  rw [Int.add_mul, ← apply_magnitude, ← apply_magnitude] at happrox
  rw [hadd, ← magnitude_shiftLeft (k := d₁) (m := m₁) (e := e₁) (by omega),
    ← magnitude_shiftLeft (k := d₂) (m := m₂) (e := e₂) (by omega), hexp₁, hexp₂]
  exact happrox

/-- **A sum of finite doubles** approximates the sum of their units. -/
theorem approximates_add {a b : UnpackedFloat} (ha : Canonical a) (hb : Canonical b) (hfa : a.isFinite = true)
    (hfb : b.isFinite = true) : Approximates (UnpackedFloat.add binary64 a b) (units a + units b) := by
  cases a with
  | infinity | notANumber => cases hfa
  | zero s =>
    have hzero : units (.zero s) = 0 := rfl
    rw [hzero, Int.zero_add]
    cases b with
    | infinity | notANumber => cases hfb
    | zero s' => cases s <;> cases s' <;> exact approximates_self (a := .zero _) trivial rfl
    | finite s' m e hm => exact approximates_self (a := .finite s' m e hm) hb.1 rfl
  | finite s m e hm =>
    cases b with
    | infinity | notANumber => cases hfb
    | zero => exact approximates_self (a := .finite s m e hm) ha.1 (Int.add_zero _).symm
    | finite => exact approximates_add_finite ha.1 hb.1

/-! ### Differences -/

theorem apply_neg (s : Sign) (n : ℤ) : (-s).apply n = -s.apply n := by
  cases s
  · exact (Int.neg_neg n).symm
  · rfl

theorem sub_eq_add_neg (a b : UnpackedFloat) :
    UnpackedFloat.sub binary64 a b = UnpackedFloat.add binary64 a b.neg := by
  cases a with
  | finite s m e hm =>
    cases b with
    | finite s' m' e' hm' =>
      simp only [UnpackedFloat.sub, UnpackedFloat.add, UnpackedFloat.neg, decreaseExponent, apply_neg,
        Int.sub_eq_add_neg]
    | _ => rfl
  | _ => cases b <;> rfl

theorem units_neg (b : UnpackedFloat) : units b.neg = -units b := by
  cases b with
  | infinity s => exact apply_neg s limit
  | finite s m e => exact apply_neg s (magnitude m e)
  | _ => rfl

theorem canonical_neg {b : UnpackedFloat} (h : Canonical b) : Canonical b.neg := by
  cases b <;> exact h

theorem isFinite_neg (b : UnpackedFloat) : b.neg.isFinite = b.isFinite := by
  cases b <;> rfl

end Sums

/-! ## Doubles -/

section Doubles

variable {x y c w : Float}

theorem unpack_of_isFinite (h : c.isFinite = true) :
    (∃ s, c.toModel.unpack = .zero s) ∨ ∃ s m e hm, c.toModel.unpack = .finite s m e hm := by
  revert h
  show c.toModel.unpack.isFinite = true → _
  cases c.toModel.unpack with
  | zero s => exact fun _ => .inl ⟨s, rfl⟩
  | finite s m e hm => exact fun _ => .inr ⟨s, m, e, hm, rfl⟩
  | infinity | notANumber => exact nofun

theorem isNaN_of_isFinite (h : c.isFinite = true) : c.isNaN = false := by
  rw [isNaN_eq_false_iff]
  rcases unpack_of_isFinite h with ⟨s, hu⟩ | ⟨s, m, e, hm, hu⟩ <;> simp [hu]

theorem representable_units {a : UnpackedFloat} (ha : Canonical a) (hf : a.isFinite = true) :
    Representable (units a).natAbs := by
  cases a with
  | infinity | notANumber => cases hf
  | zero s => exact ⟨0, 0, by decide, rfl⟩
  | finite s m e hm =>
    refine ⟨m, (e + 1074).toNat, ha.1.lt, ?_⟩
    cases s
    · exact Int.natAbs_neg _
    · rfl

/-- **What is computed as an approximation** of a number of units is a number, and no finite double lies between. -/
theorem le_of_approximates {z : Float} {u : UnpackedFloat} {n : ℤ} (hz : z.toModel = Float.Model.pack u)
    (h : Approximates u n) :
    z.isNaN = false ∧ ∀ c : Float, c.isFinite = true → (value c ≤ n → c ≤ z) ∧ (n ≤ value c → z ≤ c) := by
  obtain ⟨hnumber, hbetween⟩ := stored_spec h
  have hstored : z.toModel.unpack = UnpackedFloat.unpack binary64 (UnpackedFloat.pack binary64 u) := by
    rw [hz]
    rfl
  rw [← hstored] at hnumber hbetween
  have hnan := isNaN_eq_false_iff.2 hnumber
  refine ⟨hnan, fun c hc => ?_⟩
  have hcanonical := canonical_unpack c.toModel.toBits.toBitVec
  have hcnan := isNaN_of_isFinite hc
  have hfinite : ∀ s, c.toModel.unpack ≠ .infinity s := by
    rcases unpack_of_isFinite hc with ⟨s, hu⟩ | ⟨s, m, e, hm, hu⟩ <;> simp [hu]
  obtain ⟨hlow, hhigh⟩ := units_between hcanonical hfinite
  obtain ⟨hbelow, habove⟩ := hbetween (value c) (representable_units hcanonical hc) hlow hhigh
  exact ⟨fun hle => le_iff.2 ⟨⟨hcnan, hnan⟩, hbelow hle⟩, fun hle => le_iff.2 ⟨⟨hnan, hcnan⟩, habove hle⟩⟩

/-- **The sum of finite doubles** is a number, and no finite double lies between it and the exact sum. -/
theorem add_spec (hx : x.isFinite = true) (hy : y.isFinite = true) :
    (x + y).isNaN = false ∧ ∀ c : Float, c.isFinite = true →
      (value c ≤ value x + value y → c ≤ x + y) ∧ (value x + value y ≤ value c → x + y ≤ c) :=
  le_of_approximates rfl (approximates_add (canonical_unpack _) (canonical_unpack _) hx hy)

/-- **The difference of finite doubles**, in the same way. -/
theorem sub_spec (hx : x.isFinite = true) (hy : y.isFinite = true) :
    (x - y).isNaN = false ∧ ∀ c : Float, c.isFinite = true →
      (value c ≤ value x - value y → c ≤ x - y) ∧ (value x - value y ≤ value c → x - y ≤ c) := by
  have happrox := approximates_add (canonical_unpack x.toModel.toBits.toBitVec)
    (canonical_neg (canonical_unpack y.toModel.toBits.toBitVec)) hx ((isFinite_neg _).trans hy)
  rw [← sub_eq_add_neg, units_neg, ← Int.sub_eq_add_neg] at happrox
  exact le_of_approximates rfl happrox

theorem unpack_of_not_finite (hx : x.isNaN = false) (hinf : ¬x.isFinite = true) (hw : w.isFinite = true) :
    (x + w).toModel.unpack = x.toModel.unpack ∧ (x - w).toModel.unpack = x.toModel.unpack := by
  have hadd : (x + w).toModel.unpack = UnpackedFloat.unpack binary64
      (UnpackedFloat.pack binary64 (UnpackedFloat.add binary64 x.toModel.unpack w.toModel.unpack)) := rfl
  have hsub : (x - w).toModel.unpack = UnpackedFloat.unpack binary64
      (UnpackedFloat.pack binary64 (UnpackedFloat.sub binary64 x.toModel.unpack w.toModel.unpack)) := rfl
  rw [hadd, hsub]
  rw [isNaN_eq_false_iff] at hx
  change ¬x.toModel.unpack.isFinite = true at hinf
  cases hxu : x.toModel.unpack with
  | notANumber => exact absurd hxu hx
  | zero | finite =>
    rw [hxu] at hinf
    exact absurd rfl hinf
  | infinity s =>
    rcases unpack_of_isFinite hw with ⟨s', hu⟩ | ⟨s', m, e, hm, hu⟩
    · rw [hu]
      exact ⟨unpack_packedInfinity s, unpack_packedInfinity s⟩
    · rw [hu]
      exact ⟨unpack_packedInfinity s, unpack_packedInfinity s⟩

theorem isNaN_add (hx : x.isNaN = false) (hw : w.isFinite = true) : (x + w).isNaN = false := by
  by_cases hf : x.isFinite = true
  · exact (add_spec hf hw).1
  · rw [isNaN_eq_false_iff, (unpack_of_not_finite hx hf hw).1]
    exact isNaN_eq_false_iff.1 hx

theorem isNaN_sub (hx : x.isNaN = false) (hw : w.isFinite = true) : (x - w).isNaN = false := by
  by_cases hf : x.isFinite = true
  · exact (sub_spec hf hw).1
  · rw [isNaN_eq_false_iff, (unpack_of_not_finite hx hf hw).2]
    exact isNaN_eq_false_iff.1 hx

theorem value_zero : value 0 = 0 := by rfl

theorem value_nonneg (h : 0 ≤ w) : 0 ≤ value w := value_zero ▸ (le_iff.1 h).2

/-- **Adding what is not negative** does not make a number smaller. -/
theorem le_add (hx : x.isNaN = false) (hw : w.isFinite = true) (h : 0 ≤ w) : x ≤ x + w := by
  have hnonneg := value_nonneg h
  by_cases hf : x.isFinite = true
  · exact (((add_spec hf hw).2 x hf).1 (by omega))
  · have hsame : value (x + w) = value x := congrArg units (unpack_of_not_finite hx hf hw).1
    exact le_iff.2 ⟨⟨hx, isNaN_add hx hw⟩, hsame.ge⟩

/-- **Taking away what is not negative** does not make a number larger. -/
theorem sub_le (hx : x.isNaN = false) (hw : w.isFinite = true) (h : 0 ≤ w) : x - w ≤ x := by
  have hnonneg := value_nonneg h
  by_cases hf : x.isFinite = true
  · exact (((sub_spec hf hw).2 x hf).2 (by omega))
  · have hsame : value (x - w) = value x := congrArg units (unpack_of_not_finite hx hf hw).2
    exact le_iff.2 ⟨⟨isNaN_sub hx hw, hx⟩, hsame.le⟩

theorem sub_le_add (hx : x.isNaN = false) (hw : w.isFinite = true) (h : 0 ≤ w) : x - w ≤ x + w :=
  le_trans (sub_le hx hw h) (le_add hx hw h)

/-! ### Halves -/

/-- A power of two as it is unpacked, its mantissa being the least one that fills all bits. -/
def unpackedPower (k : ℤ) : UnpackedFloat := .finite .positive (2 ^ 52) k (Nat.two_pow_pos 52)

/-- **Dividing by a power of two** moves the mantissa to where the quotient has the bits that it needs. -/
theorem div_unpackedPower {m d : ℕ} {e e' k : ℤ} (hm : 0 < m)
    (he' : min (e - k) (max (m.log2 + 1 + e - (53 + k) - 53) (-1074)) = e') (hd : (e - k - e').toNat = d) :
    UnpackedFloat.div binary64 (.finite .positive m e hm) (unpackedPower k) =
      roundWithAccuracy binary64 .positive (m <<< d / 2 ^ 52) e' (accuracyOfFraction (m <<< d % 2 ^ 52) (2 ^ 52)) := by
  rw [← hd, ← he']
  rfl

theorem unpack_two : (2.0 : Float).toModel.unpack = unpackedPower (-51) := by rfl

theorem half_unpacked {m : ℕ} {e : ℤ} (hm : 0 < m) (h : Shaped m e) (he : e ≤ 971) :
    ∃ u, UnpackedFloat.div binary64 (.finite .positive m e hm) (unpackedPower (-51)) = u ∧
      Rounded u ∧ ∃ n : ℕ, units u = n ∧ n < limit := by
  have hleast := h.least
  have hlog : m.log2 < 53 := (Nat.log2_lt hm.ne').2 h.lt
  obtain ⟨e', he'⟩ : ∃ e', min (e - -51) (max (m.log2 + 1 + e - (53 + -51) - 53) (-1074)) = e' := ⟨_, rfl⟩
  obtain ⟨d, hd⟩ : ∃ d, (e - -51 - e').toNat = d := ⟨_, rfl⟩
  have hdiv := div_unpackedPower hm he' hd
  have hhigh : m <<< d / 2 ^ 52 < 2 ^ (d + 1) := by
    rw [Nat.div_lt_iff_lt_mul (Nat.two_pow_pos 52), Nat.shiftLeft_eq, ← Nat.pow_add, Nat.add_assoc, Nat.add_comm d,
      Nat.pow_add]
    exact Nat.mul_lt_mul_of_pos_right h.lt (Nat.two_pow_pos d)
  have hlow : e' = -1074 ∨ 2 ^ 53 ≤ m <<< d / 2 ^ 52 := by
    by_cases hcase : e' = -1074
    · exact .inl hcase
    · refine .inr ((Nat.le_div_iff_mul_le (Nat.two_pow_pos 52)).2 ?_)
      calc 2 ^ 53 * 2 ^ 52 = 2 ^ (m.log2 + d) := by rw [← Nat.pow_add]; congr 1; omega
        _ ≤ m <<< d := by
          rw [Nat.pow_add, Nat.shiftLeft_eq]
          exact Nat.mul_le_mul_right _ (Nat.log2_self_le hm.ne')
  obtain ⟨m', hm'⟩ : ∃ m', m <<< d / 2 ^ 52 = m' := ⟨_, rfl⟩
  rw [hm'] at hdiv hhigh hlow
  obtain ⟨t, ht⟩ : ∃ t, max (m'.log2 + 1 + e' - 53) (-1074) = t := ⟨_, rfl⟩
  have hlower : e' = -1074 ∨ 53 ≤ m'.log2 := hlow.imp_right fun hle => (Nat.le_log2 (by omega)).2 hle
  have hupper : m'.log2 ≤ d := by
    rcases Nat.eq_zero_or_pos m' with rfl | hpos
    · exact Nat.zero_le d
    · exact Nat.le_of_lt_succ ((Nat.log2_lt hpos.ne').2 hhigh)
  have hpos : 0 < m' ∨ t = -1074 := by
    rcases Nat.eq_zero_or_pos m' with rfl | hpos
    · have hzero : Nat.log2 0 = 0 := by decide
      exact .inr (by omega)
    · exact .inl hpos
  obtain ⟨q, -, -, -, -, hq, hshape, hunits⟩ :=
    roundWithAccuracy_spec .positive (accuracyOfFraction (m <<< d % 2 ^ 52) (2 ^ 52)) hpos (by omega) ht.symm (by omega)
  refine ⟨_, hdiv, hshape, magnitude q t, hunits, ?_⟩
  calc magnitude q t ≤ magnitude (2 ^ 53) 970 := magnitude_le_magnitude hq (by omega)
    _ = magnitude (2 ^ 52) 971 := magnitude_carry (by decide)
    _ < limit := magnitude_lt_magnitude (by decide) 971

theorem unpack_of_pos (hx : x.isFinite = true) (h : 0 < x) :
    ∃ m e hm, x.toModel.unpack = .finite .positive m e hm ∧ Shaped m e ∧ e ≤ 971 := by
  have hcanonical : Canonical x.toModel.unpack := canonical_unpack _
  have hpos : 0 < units x.toModel.unpack := value_zero ▸ (lt_iff.1 h).2
  rcases unpack_of_isFinite hx with ⟨s, hu⟩ | ⟨s, m, e, hm, hu⟩
  · rw [hu] at hpos
    exact absurd hpos (Int.lt_irrefl 0)
  · rw [hu] at hcanonical hpos
    cases s with
    | negative => exact absurd hpos (units_negative_neg m e hm).not_gt
    | positive => exact ⟨m, e, hm, hu, hcanonical⟩

/-- **Half of a positive finite double** is finite and not negative. -/
theorem half_spec (hx : x.isFinite = true) (h : 0 < x) : (x / 2.0).isFinite = true ∧ 0 ≤ x / 2.0 := by
  obtain ⟨m, e, hm, hxu, hshape, he⟩ := unpack_of_pos hx h
  obtain ⟨u, hdiv, hrounded, n, hunits, hlt⟩ := half_unpacked hm hshape he
  have hhalf : (x / 2.0).toModel.unpack = u := by
    have hstored : (x / 2.0).toModel.unpack = UnpackedFloat.unpack binary64 (UnpackedFloat.pack binary64
        (UnpackedFloat.div binary64 x.toModel.unpack (2.0 : Float).toModel.unpack)) := rfl
    rw [hstored, unpack_two, hxu, hdiv]
    exact stored_of_lt (s := .positive) hrounded hunits hlt
  have hfinite : (x / 2.0).isFinite = true := by
    show (x / 2.0).toModel.unpack.isFinite = true
    rw [hhalf]
    exact isFinite_of_rounded hrounded
  have hvalue : value (x / 2.0) = n := (congrArg units hhalf).trans hunits
  refine ⟨hfinite, le_iff.2 ⟨⟨by rfl, isNaN_of_isFinite hfinite⟩, ?_⟩⟩
  rw [value_zero, hvalue]
  exact Int.natCast_nonneg n

end Doubles

end BoardAtlas.Binary64
