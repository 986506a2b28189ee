import BoardAtlas.Proofs.Number.Naturals
import BoardAtlas.Number.Size

/-!
# Amounts in a unit

An amount is divided by 1024 until it is below 1024. Each division is exact, because it only lowers the exponent of a
double that is one or more; so the loop over doubles reaches the unit and the amount that a loop over rational numbers
would. It is rounded once, when the one decimal is written.

* `div_base_spec`: dividing by 1024;
* `abs_lt_base_iff`: when the loop ends;
* `InUnit`, **`scaled_spec`**: what the loop reaches;
* **`oneDecimal_spec`**: the one decimal that is written.
-/

namespace BoardAtlas.Binary64

open Float.Model Float.Model.UnpackedFloat Float.Model.Format

variable {x y : Float}

/-! ## The base -/

theorem unpack_base : (1024 : Float).toModel.unpack = unpackedPower (-42) := by rfl

theorem unpack_of_rational_pos (hx : x.isFinite = true) (h : 0 < rational x) :
    ∃ m e hm, x.toModel.unpack = .finite .positive m e hm ∧ Shaped m e ∧ e ≤ 971 := by
  have hpos : 0 < value x := Int.cast_pos.1 ((div_pos_iff_of_pos_right oneUnits_pos).1 h)
  refine unpack_of_pos hx (lt_iff.2 ⟨⟨by rfl, isNaN_of_isFinite hx⟩, ?_⟩)
  rwa [value_zero]

theorem full_of_one_le {m : ℕ} {e : ℤ} (hshape : Shaped m e) (h : oneUnits ≤ magnitude m e) :
    -52 ≤ e ∧ 2 ^ 52 ≤ m := by
  have hexp : -52 ≤ e := by
    by_contra hlt
    have hone : magnitude m e < oneUnits := calc
      magnitude m e < magnitude (2 ^ 53) e := magnitude_lt_magnitude hshape.lt e
      _ ≤ magnitude (1 <<< 53) (0 - (53 : ℕ)) := magnitude_le_magnitude le_rfl (by omega)
      _ = oneUnits := magnitude_shiftLeft (by decide)
    exact absurd h hone.not_ge
  exact ⟨hexp, hshape.full.resolve_left (by omega)⟩

theorem div_base_unpacked {m : ℕ} {e : ℤ} (hm : 0 < m) (hlt : m < 2 ^ 53) (hfull : 2 ^ 52 ≤ m) (hexp : -52 ≤ e)
    (he : e ≤ 971) :
    let u := UnpackedFloat.div binary64 (.finite .positive m e hm) (unpackedPower (-42))
    Rounded u ∧ units u = magnitude m (e - 10) := by
  have hlog : m.log2 = 52 := (Nat.log2_eq_iff hm.ne').2 ⟨hfull, hlt⟩
  have htarget : min (e - -42) (max ((m.log2 : ℤ) + 1 + e - (53 + -42) - 53) (-1074)) = e - 11 := by omega
  have hshift : (e - -42 - (e - 11)).toNat = 53 := by omega
  have hdiv := div_unpackedPower hm htarget hshift
  have hquot : m <<< 53 / 2 ^ 52 = 2 * m := by
    rw [Nat.shiftLeft_eq]
    omega
  have hrest : m <<< 53 % 2 ^ 52 = 0 := by
    rw [Nat.shiftLeft_eq]
    omega
  have hexact : accuracyOfFraction 0 (2 ^ 52) = .exact := rfl
  rw [hquot, hrest, hexact] at hdiv
  have hlog2 : (2 * m).log2 = 53 := (Nat.log2_eq_iff (by omega)).2 ⟨by omega, by omega⟩
  obtain ⟨q, -, -, hq, -, -, hrounded, hunits⟩ :=
    roundWithAccuracy_spec (m := 2 * m) (e := e - 11) (t := e - 10) .positive .exact (.inl (by omega)) (by omega)
      (by omega) (by omega)
  have hone : (e - 10 - (e - 11)).toNat = 1 := by omega
  rw [hone, Nat.pow_one, Nat.mul_div_cancel_left m two_pos] at hq
  rw [hq rfl ⟨m, rfl⟩] at hunits
  rw [hdiv]
  exact ⟨hrounded, hunits⟩

/-- **Dividing by 1024** is exact from one on. -/
theorem div_base_spec (hx : x.isFinite = true) (h : 1 ≤ rational x) :
    (x / 1024).isFinite = true ∧ rational (x / 1024) = rational x / 1024 := by
  obtain ⟨m, e, hm, hxu, hshape, he⟩ := unpack_of_rational_pos hx (zero_lt_one.trans_le h)
  have hvalue : value x = magnitude m e := congrArg units hxu
  have hlarge : oneUnits ≤ magnitude m e := by
    rw [rational, one_le_div oneUnits_pos, hvalue, Int.cast_natCast] at h
    exact Nat.cast_le.1 h
  obtain ⟨hexp, hfull⟩ := full_of_one_le hshape hlarge
  obtain ⟨hrounded, hunits⟩ := div_base_unpacked hm hshape.lt hfull hexp he
  have hlimit : magnitude m (e - 10) < limit :=
    (magnitude_le_magnitude le_rfl (by omega)).trans_lt (hshape.magnitude_lt_limit he)
  have hstored : (x / 1024).toModel.unpack =
      UnpackedFloat.div binary64 (.finite .positive m e hm) (unpackedPower (-42)) := by
    have hraw : (x / 1024).toModel.unpack = UnpackedFloat.unpack binary64 (UnpackedFloat.pack binary64
        (UnpackedFloat.div binary64 x.toModel.unpack (1024 : Float).toModel.unpack)) := rfl
    rw [hraw, unpack_base, hxu]
    exact stored_of_lt (s := .positive) hrounded hunits hlimit
  refine ⟨(congrArg UnpackedFloat.isFinite hstored).trans (isFinite_of_rounded hrounded), ?_⟩
  have hquotient : value (x / 1024) = magnitude m (e - 10) := (congrArg units hstored).trans hunits
  have hmul : magnitude m e = magnitude m (e - 10) * 1024 := by
    have hsum : (e + 1074).toNat = (e - 10 + 1074).toNat + 10 := by omega
    rw [magnitude, magnitude, hsum, Nat.pow_add, ← Nat.mul_assoc]
  rw [rational, rational, hquotient, hvalue, hmul, Int.cast_natCast, Int.cast_natCast, Nat.cast_mul, div_right_comm,
    Nat.cast_ofNat, mul_div_cancel_right₀ _ (by norm_num)]

/-! ## The loop -/

theorem unpack_abs {m : ℕ} {e : ℤ} {hm : 0 < m} (hu : x.toModel.unpack = .finite .positive m e hm) (h : Shaped m e)
    (he : e ≤ 971) : x.abs.toModel.unpack = .finite .positive m e hm := by
  have habs : x.abs.toModel.unpack =
      UnpackedFloat.unpack binary64 (UnpackedFloat.pack binary64 x.toModel.unpack.abs) := rfl
  have hpos : (UnpackedFloat.finite .positive m e hm).abs = .finite .positive m e hm := rfl
  rw [habs, hu, hpos, unpack_pack_finite h, if_neg (by omega)]

theorem rational_base : (1024 : Float).isFinite = true ∧ rational 1024 = 1024 :=
  integer?_eq_some_iff.1 (by decide +kernel : integer? 1024 = some 1024)

theorem abs_lt_base_iff (hx : x.isFinite = true) (h : 0 < rational x) : x.abs < 1024 ↔ rational x < 1024 := by
  obtain ⟨m, e, hm, hu, hshape, he⟩ := unpack_of_rational_pos hx h
  have habs := unpack_abs hu hshape he
  have hfinite : x.abs.isFinite = true := congrArg UnpackedFloat.isFinite habs
  have hsame : value x.abs = value x := congrArg units (habs.trans hu.symm)
  rw [lt_iff_rational hfinite rational_base.1, rational_base.2, rational, hsame]
  rfl

/-- **A double in the k-th unit**: divided so many times by the base, exactly and not further than to one. -/
structure InUnit (x : Float) (k : ℕ) (y : Float) : Prop where
  finite : y.isFinite = true
  eq : rational y = rational x / 1024 ^ k
  one_le : 0 < k → 1 ≤ rational y

theorem InUnit.zero (hx : x.isFinite = true) : InUnit x 0 x :=
  ⟨hx, by rw [pow_zero, div_one], fun h => absurd h (Nat.lt_irrefl 0)⟩

theorem InUnit.succ {k : ℕ} (hquotient : rational (x / 1024) = rational x / 1024) (hlarge : 1024 ≤ rational x)
    (h : InUnit (x / 1024) k y) : InUnit x (k + 1) y := by
  refine ⟨h.finite, ?_, fun _ => ?_⟩
  · rw [h.eq, hquotient, div_div, pow_succ']
  · rcases Nat.eq_zero_or_pos k with rfl | hk
    · rw [h.eq, hquotient, pow_zero, div_one]
      exact (one_le_div (by norm_num)).2 hlarge
    · exact h.one_le hk

section InUnit

variable {k w : ℕ} (h : InUnit x k y)

include h

theorem InUnit.pos (hpos : 0 < rational x) : 0 < rational y := by
  rw [h.eq]
  positivity

theorem InUnit.pow_le (hw : rational x = w) (hk : 0 < k) : 1024 ^ k ≤ w := by
  have hone := h.one_le hk
  rw [h.eq, hw, one_le_div (by positivity)] at hone
  exact_mod_cast hone

theorem InUnit.lt_pow (hw : rational x = w) (hsmall : rational y < 1024) : w < 1024 ^ (k + 1) := by
  rw [h.eq, hw, div_lt_iff₀ (by positivity), ← pow_succ'] at hsmall
  exact_mod_cast hsmall

end InUnit

/-- **The loop** goes through the units until the amount is below the base, or to the last unit. -/
theorem scaled_spec (us : List String) (hx : x.isFinite = true) (hpos : 0 < rational x) :
    ∃ k y letter, scaled (fun y => decide (y.abs < 1024)) 1024 x us = (y, letter) ∧ InUnit x k y ∧
      (us ++ ["Y"])[k]? = some letter ∧ (k < us.length → rational y < 1024) := by
  induction us generalizing x with
  | nil => exact ⟨0, x, "Y", rfl, .zero hx, rfl, fun h => absurd h (Nat.not_lt_zero 0)⟩
  | cons u us ih =>
    by_cases hsmall : x.abs < 1024
    · refine ⟨0, x, u, if_pos (decide_eq_true hsmall), .zero hx, rfl, fun _ => ?_⟩
      exact (abs_lt_base_iff hx hpos).1 hsmall
    · have hlarge : 1024 ≤ rational x := not_lt.1 (mt (abs_lt_base_iff hx hpos).2 hsmall)
      obtain ⟨hfinite, hquotient⟩ := div_base_spec hx ((by norm_num : (1 : ℚ) ≤ 1024).trans hlarge)
      have hpositive : 0 < rational (x / 1024) := by
        rw [hquotient]
        positivity
      obtain ⟨k, y, letter, hscaled, hunit, hletter, hbound⟩ := ih hfinite hpositive
      refine ⟨k + 1, y, letter, ?_, hunit.succ hquotient hlarge, hletter, fun hk => hbound (Nat.lt_of_succ_lt_succ hk)⟩
      rw [scaled, if_neg (by rwa [decide_eq_true_iff]), hscaled]

/-! ## One decimal -/

theorem abs_tenths_sub_le_iff {t q d : ℚ} (hd : 0 < d) :
    |t / 10 - q| ≤ 1 / 20 ↔ 2 * (t * d) ≤ 20 * (q * d) + d ∧ 20 * (q * d) ≤ 2 * (t * d) + d := by
  rw [abs_le]
  constructor
  · rintro ⟨hlow, hhigh⟩
    have hlow' := mul_le_mul_of_nonneg_right hlow hd.le
    have hhigh' := mul_le_mul_of_nonneg_right hhigh hd.le
    constructor <;> linarith
  · rintro ⟨hlow, hhigh⟩
    constructor
    · refine le_of_mul_le_mul_right ?_ hd
      linarith
    · refine le_of_mul_le_mul_right ?_ hd
      linarith

/-- **One decimal** is the nearest number of tenths. -/
theorem oneDecimal_spec (hx : x.isFinite = true) (hpos : 0 < rational x) : ∃ t : ℕ,
    oneDecimal x = toString (t / 10) ++ "." ++ toString (t % 10) ∧ |(t : ℚ) / 10 - rational x| ≤ 1 / 20 := by
  obtain ⟨p, hp⟩ := isFinite_iff_parts?.1 hx
  have hrational := (rational_of_parts? hp).trans p.toRat_eq_div
  have hd := pow2_pos (-p.exponent).toNat
  have hdq : (0 : ℚ) < (pow2 (-p.exponent).toNat : ℕ) := Nat.cast_pos.2 hd
  have hsign : p.negative = false := by
    by_contra hneg
    have hsigned : p.signed * (pow2 p.exponent.toNat : ℕ) ≤ 0 := by
      rw [Parts.signed, if_pos (eq_true_of_ne_false hneg)]
      exact mul_nonpos_of_nonpos_of_nonneg (by omega) (Int.natCast_nonneg _)
    rw [hrational, lt_div_iff₀ hdq, zero_mul] at hpos
    exact absurd (Int.cast_pos.1 hpos) (not_lt.2 hsigned)
  have hunits : rational x * (pow2 (-p.exponent).toNat : ℕ) = (p.mantissa * pow2 p.exponent.toNat : ℕ) := by
    rw [hrational, div_mul_cancel₀ _ hdq.ne', Parts.signed, hsign]
    simp
  obtain ⟨hlow, hhigh⟩ := roundQuotient_bounds .even hd (10 * (p.mantissa * pow2 p.exponent.toNat))
  refine ⟨roundQuotient .even (10 * (p.mantissa * pow2 p.exponent.toNat)) (pow2 (-p.exponent).toNat), ?_, ?_⟩
  · rw [oneDecimal, hp]
    simp only [oneDecimalRatio, hsign, Bool.false_eq_true, if_false, String.empty_append]
  · have hlow' := Rat.natCast_le_natCast.2 hlow
    have hhigh' := Rat.natCast_le_natCast.2 hhigh
    push_cast at hlow' hhigh' hunits
    rw [← hunits] at hlow' hhigh'
    exact (abs_tenths_sub_le_iff hdq).2 ⟨by linarith, by linarith⟩

end BoardAtlas.Binary64
