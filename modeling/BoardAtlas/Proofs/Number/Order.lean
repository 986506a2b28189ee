import Mathlib
import BoardAtlas.Number.Binary64

/-!
# The order of doubles

A finite double is a whole number of units, the unit being the least positive double. Doubles that are numbers are
ordered as these numbers of units are, an infinity being as many units as would follow the largest finite double.

* `magnitude`, `Shaped`: mantissas and exponents as doubles have them; `Shaped.compare_magnitude`: their order;
* `units`, `Canonical`, `compare_eq_compare_units`: the order of unpacked doubles;
* `canonical_unpack`, `unpack_pack_finite`: what is unpacked from a double, and from one that was packed;
* `value`, **`le_iff`**, `lt_iff`, `beq_iff`: the order of doubles;
* **`isLeast_smaller`**, **`isGreatest_larger`**: the smaller and the larger of two doubles.
-/

namespace BoardAtlas.Binary64

open Float.Model Float.Model.UnpackedFloat

/-! ## Mantissas and exponents -/

/-- The units of a mantissa at an exponent. -/
def magnitude (m : ℕ) (e : ℤ) : ℕ := m * 2 ^ (e + 1074).toNat

/-- A mantissa and an exponent as a double has them, but for the largest exponent: the mantissa fills all its bits
unless the exponent is the least one. -/
structure Shaped (m : ℕ) (e : ℤ) : Prop where
  lt : m < 2 ^ 53
  least : -1074 ≤ e
  full : e = -1074 ∨ 2 ^ 52 ≤ m

/-- The units of an infinity: those that would follow the units of the largest double. -/
def limit : ℕ := magnitude (2 ^ 53) 971

section Magnitude

variable {m m₁ m₂ : ℕ} {e e₁ e₂ : ℤ}

theorem magnitude_pos (hm : 0 < m) (e : ℤ) : 0 < magnitude m e := Nat.mul_pos hm (Nat.two_pow_pos _)

theorem limit_pos : 0 < limit := magnitude_pos (Nat.two_pow_pos 53) 971

theorem magnitude_lt_magnitude (h : m₁ < m₂) (e : ℤ) : magnitude m₁ e < magnitude m₂ e :=
  Nat.mul_lt_mul_of_pos_right h (Nat.two_pow_pos _)

theorem magnitude_le_magnitude (hm : m₁ ≤ m₂) (he : e₁ ≤ e₂) : magnitude m₁ e₁ ≤ magnitude m₂ e₂ :=
  Nat.mul_le_mul hm (Nat.pow_le_pow_right (by decide) (by omega))

theorem magnitude_carry (he : -1074 ≤ e) : magnitude (2 ^ 53) e = magnitude (2 ^ 52) (e + 1) := by
  have hnext : (e + 1 + 1074).toNat = (e + 1074).toNat + 1 := by omega
  rw [magnitude, magnitude, hnext, Nat.pow_succ 2 (e + 1074).toNat]
  omega

theorem Shaped.magnitude_lt_of_lt (h₁ : Shaped m₁ e₁) (h₂ : Shaped m₂ e₂) (he : e₁ < e₂) :
    magnitude m₁ e₁ < magnitude m₂ e₂ := by
  have hleast := h₁.least
  have hfull : 2 ^ 52 ≤ m₂ := h₂.full.resolve_left (by omega)
  calc magnitude m₁ e₁ < magnitude (2 ^ 53) e₁ := magnitude_lt_magnitude h₁.lt e₁
    _ = magnitude (2 ^ 52) (e₁ + 1) := magnitude_carry hleast
    _ ≤ magnitude m₂ e₂ := magnitude_le_magnitude hfull (by omega)

theorem Shaped.magnitude_lt_limit (h : Shaped m e) (he : e ≤ 971) : magnitude m e < limit :=
  (magnitude_lt_magnitude h.lt e).trans_le (magnitude_le_magnitude le_rfl he)

theorem Shaped.limit_le_magnitude (h : Shaped m e) (he : 971 < e) : limit ≤ magnitude m e := by
  have hfull : 2 ^ 52 ≤ m := h.full.resolve_left (by omega)
  rw [limit, magnitude_carry (by decide)]
  exact magnitude_le_magnitude hfull (by omega)

/-- **Exponents decide before mantissas.** -/
theorem Shaped.compare_magnitude (h₁ : Shaped m₁ e₁) (h₂ : Shaped m₂ e₂) :
    compare (magnitude m₁ e₁ : ℤ) (magnitude m₂ e₂) = (compare e₁ e₂).then (compare m₁ m₂) := by
  rcases lt_trichotomy e₁ e₂ with he | rfl | he
  · rw [compare_lt_iff_lt.2 he, compare_lt_iff_lt.2 (Int.ofNat_lt.2 (h₁.magnitude_lt_of_lt h₂ he))]
    rfl
  · have hsame : (compare e₁ e₁).then (compare m₁ m₂) = compare m₁ m₂ := by
      rw [compare_eq_iff_eq.2 rfl]
      rfl
    rw [hsame]
    rcases lt_trichotomy m₁ m₂ with hm | rfl | hm
    · rw [compare_lt_iff_lt.2 hm, compare_lt_iff_lt.2 (Int.ofNat_lt.2 (magnitude_lt_magnitude hm e₁))]
    · rw [compare_eq_iff_eq.2 rfl, compare_eq_iff_eq.2 rfl]
    · rw [compare_gt_iff_gt.2 hm, compare_gt_iff_gt.2 (Int.ofNat_lt.2 (magnitude_lt_magnitude hm e₁))]
  · rw [compare_gt_iff_gt.2 he, compare_gt_iff_gt.2 (Int.ofNat_lt.2 (h₂.magnitude_lt_of_lt h₁ he))]
    rfl

end Magnitude

/-! ## Unpacked doubles -/

/-- The units of an unpacked double. -/
def units : UnpackedFloat → ℤ
  | .finite s m e _ => s.apply (magnitude m e)
  | .infinity s => s.apply limit
  | .zero _ => 0
  | .notANumber => 0

/-- An unpacked double has the mantissa and exponent that doubles have. -/
def Canonical : UnpackedFloat → Prop
  | .finite _ m e _ => Shaped m e ∧ e ≤ 971
  | _ => True

section Units

variable {a b : UnpackedFloat} {s : Sign} {m : ℕ} {e : ℤ}

theorem units_positive_pos (m : ℕ) (e : ℤ) (hm : 0 < m) : 0 < units (.finite .positive m e hm) := by
  have hpos := magnitude_pos hm e
  simp only [units, Sign.apply]
  omega

theorem units_negative_neg (m : ℕ) (e : ℤ) (hm : 0 < m) : units (.finite .negative m e hm) < 0 := by
  have hpos := magnitude_pos hm e
  simp only [units, Sign.apply]
  omega

theorem units_between (ha : Canonical a) (h : ∀ s, a ≠ .infinity s) : -limit < units a ∧ units a < limit := by
  have hlimit := limit_pos
  cases a with
  | infinity s => exact absurd rfl (h s)
  | notANumber | zero _ =>
    simp only [units]
    omega
  | finite s m e hm =>
    have hlt := ha.1.magnitude_lt_limit ha.2
    cases s <;> simp only [units, Sign.apply] <;> omega

theorem compare_neg_neg (x y : ℤ) : compare (-x) (-y) = (compare x y).swap := by
  rcases lt_trichotomy x y with h | rfl | h
  · rw [compare_lt_iff_lt.2 h, compare_gt_iff_gt.2 (Int.neg_lt_neg h)]
    rfl
  · rw [compare_eq_iff_eq.2 rfl, compare_eq_iff_eq.2 rfl]
    rfl
  · rw [compare_gt_iff_gt.2 h, compare_lt_iff_lt.2 (Int.neg_lt_neg h)]
    rfl

/-- **Doubles compare as their units do.** -/
theorem compare_eq_compare_units (ha : Canonical a) (hb : Canonical b)
    (hna : a ≠ .notANumber) (hnb : b ≠ .notANumber) : a.compare b = some (compare (units a) (units b)) := by
  have hlimit := limit_pos
  have hlt {x y : ℤ} (h : x < y) : some Ordering.lt = some (compare x y) :=
    congrArg some (compare_lt_iff_lt.2 h).symm
  have hgt {x y : ℤ} (h : y < x) : some Ordering.gt = some (compare x y) :=
    congrArg some (compare_gt_iff_gt.2 h).symm
  fun_cases UnpackedFloat.compare a b
  case case1 => exact absurd rfl hna
  case case2 => exact absurd rfl hnb
  case case3 s s' =>
    cases s <;> cases s'
    · exact congrArg some (compare_eq_iff_eq.2 rfl).symm
    · exact hlt (by simp only [units, Sign.apply]; omega)
    · exact hgt (by simp only [units, Sign.apply]; omega)
    · exact congrArg some (compare_eq_iff_eq.2 rfl).symm
  -- One of them is an infinity and the other is none.
  case case4 _ hinf => exact hgt (units_between hb hinf).2
  case case5 _ hinf => exact hlt (units_between hb hinf).1
  case case6 _ hinf => exact hlt (units_between ha hinf).2
  case case7 _ hinf => exact hgt (units_between ha hinf).1
  -- The signs differ, or one of them is a zero.
  case case8 m e hm _ => exact hgt (units_positive_pos m e hm)
  case case9 m e hm _ => exact hlt (units_negative_neg m e hm)
  case case10 _ m e hm => exact hlt (units_positive_pos m e hm)
  case case11 _ m e hm => exact hgt (units_negative_neg m e hm)
  case case12 => exact congrArg some (compare_eq_iff_eq.2 rfl).symm
  case case14 m e hm m' e' hm' => exact hlt ((units_negative_neg m e hm).trans (units_positive_pos m' e' hm'))
  case case15 m e hm m' e' hm' => exact hgt ((units_negative_neg m' e' hm').trans (units_positive_pos m e hm))
  -- The signs are the same.
  case case13 => exact congrArg some ((compare_neg_neg _ _).trans (congrArg _ (ha.1.compare_magnitude hb.1))).symm
  case case16 => exact congrArg some (ha.1.compare_magnitude hb.1).symm

end Units

/-! ## Doubles as they are stored -/

section Stored

open Format

theorem ofBitVec_unpackSign (s : Sign) (field : BitVec 11) (fraction : BitVec 52) :
    Sign.ofBitVec (@unpackSign binary64 (packComponents binary64 s field fraction)) = s := by
  have hsign : @unpackSign binary64 (packComponents binary64 s field fraction) = s.toBitVec := by
    show (s.toBitVec ++ field ++ fraction).extractLsb' 63 1 = s.toBitVec
    rw [BitVec.extractLsb'_append_eq_of_le (by decide), BitVec.extractLsb'_append_eq_of_le (by decide)]
    exact BitVec.extractLsb'_eq_self
  rw [hsign]
  cases s <;> rfl

theorem toNat_full (fraction : BitVec 52) : (1#1 ++ fraction).toNat = 2 ^ 52 + fraction.toNat := by
  show 2 ^ 52 ||| fraction.toNat = _
  rw [Nat.or_comm, Nat.or_two_pow_eq_add_of_lt fraction.isLt, Nat.add_comm]

theorem field_lt {field : BitVec 11} (h : field ≠ -1#11) : field.toNat < 2047 := by
  have hne : field.toNat ≠ 2047 := fun he => h (BitVec.eq_of_toNat_eq he)
  have hlt := field.isLt
  omega

/-- **What is unpacked** has the mantissa and exponent that doubles have. -/
theorem canonical_unpack (word : BitVec (numBits binary64)) : Canonical (UnpackedFloat.unpack binary64 word) := by
  fun_cases UnpackedFloat.unpack binary64 word
  case case1 | case2 | case3 => trivial
  case case4 fraction field _ _ _ _ hzero _ =>
    have hfraction : fraction.toNat < 2 ^ 52 := fraction.isLt
    have hfield : field.toNat = 0 := congrArg BitVec.toNat hzero
    show Shaped fraction.toNat (field.toNat - 1075 + 1) ∧ (field.toNat - 1075 + 1 : ℤ) ≤ 971
    exact ⟨⟨by omega, by omega, .inl (by omega)⟩, by omega⟩
  case case5 fraction field _ _ _ hinf hzero =>
    have hfraction : fraction.toNat < 2 ^ 52 := fraction.isLt
    have hfield : field.toNat ≠ 0 := fun he => hzero (BitVec.eq_of_toNat_eq he)
    have hlt := field_lt hinf
    show Shaped (1#1 ++ fraction).toNat (field.toNat - 1075) ∧ (field.toNat - 1075 : ℤ) ≤ 971
    rw [toNat_full]
    exact ⟨⟨by omega, by omega, .inr (by omega)⟩, by omega⟩

theorem unpack_packedInfinity (s : Sign) :
    UnpackedFloat.unpack binary64 (packedInfinity binary64 s) = .infinity s := by
  unfold UnpackedFloat.unpack
  simp only [packedInfinity, unpackMantissa_packComponents, unpackExponent_packComponents, ofBitVec_unpackSign]
  rfl

theorem unpack_packedZero (s : Sign) : UnpackedFloat.unpack binary64 (packedZero binary64 s) = .zero s := by
  unfold UnpackedFloat.unpack
  simp only [packedZero, unpackMantissa_packComponents, unpackExponent_packComponents, ofBitVec_unpackSign]
  rfl

theorem finite_congr (s : Sign) {m m' : ℕ} {e e' : ℤ} {hm : 0 < m} {hm' : 0 < m'} (h : m = m') (he : e = e') :
    UnpackedFloat.finite s m e hm = .finite s m' e' hm' := by
  subst h he
  rfl

theorem unpack_normal (s : Sign) {m : ℕ} {e : ℤ} {hm : 0 < m} (hfull : 2 ^ 52 ≤ m) (hlt : m < 2 ^ 53)
    (hleast : -1074 ≤ e) (he : e ≤ 971) :
    UnpackedFloat.unpack binary64 (packComponents binary64 s (BitVec.ofNat 11 (e + 1075).toNat) (BitVec.ofNat 52 m)) =
      .finite s m e hm := by
  have hfield : (BitVec.ofNat 11 (e + 1075).toNat).toNat = (e + 1075).toNat := Nat.mod_eq_of_lt (by omega)
  have hfraction : (BitVec.ofNat 52 m).toNat = m - 2 ^ 52 := by
    show m % 2 ^ 52 = _
    omega
  have hother {field : BitVec 11} (h : field.toNat ≠ (e + 1075).toNat) :
      BitVec.ofNat 11 (e + 1075).toNat ≠ field := fun hsame => h (hsame ▸ hfield)
  have hinf : (-1#11 : BitVec 11).toNat = 2047 := rfl
  have hzero : (0#11 : BitVec 11).toNat = 0 := rfl
  unfold UnpackedFloat.unpack
  simp only [unpackMantissa_packComponents, unpackExponent_packComponents, ofBitVec_unpackSign]
  rw [if_neg (hother (by omega)), if_neg (hother (by omega))]
  refine finite_congr s ?_ ?_
  · rw [toNat_full, hfraction]
    omega
  · show ((BitVec.ofNat 11 (e + 1075).toNat).toNat : ℤ) - 1075 = e
    rw [hfield]
    omega

theorem unpack_subnormal (s : Sign) {m : ℕ} {hm : 0 < m} (hlt : m < 2 ^ 52) :
    UnpackedFloat.unpack binary64 (packComponents binary64 s 0#11 (BitVec.ofNat 52 m)) = .finite s m (-1074) hm := by
  have hfraction : (BitVec.ofNat 52 m).toNat = m := Nat.mod_eq_of_lt hlt
  have hne : BitVec.ofNat 52 m ≠ 0#52 := fun h => by
    rw [h] at hfraction
    change 0 = m at hfraction
    omega
  have hinf : (0#11 : BitVec 11) ≠ -1#11 := by decide
  unfold UnpackedFloat.unpack
  simp only [unpackMantissa_packComponents, unpackExponent_packComponents, ofBitVec_unpackSign]
  rw [if_neg hinf, if_pos trivial, dif_neg hne]
  exact finite_congr s hfraction rfl

/-- **What is packed and unpacked again** is the same, unless it is too large for a double and becomes infinite. -/
theorem unpack_pack_finite {s : Sign} {m : ℕ} {e : ℤ} {hm : 0 < m} (h : Shaped m e) :
    UnpackedFloat.unpack binary64 (UnpackedFloat.pack binary64 (.finite s m e hm)) =
      if 971 < e then .infinity s else .finite s m e hm := by
  have hleast := h.least
  have hlt := h.lt
  have hpack : UnpackedFloat.pack binary64 (.finite s m e hm) =
      if 2 ^ 11 ≤ (e + (1023 : ℕ) + (52 : ℕ)).toNat + 1 then packedInfinity binary64 s
      else if m.log2 + 1 = 53 then
        packComponents binary64 s (BitVec.ofNat 11 (e + (1023 : ℕ) + (52 : ℕ)).toNat) (BitVec.ofNat 52 m)
      else packComponents binary64 s 0#11 (BitVec.ofNat 52 m) := rfl
  have hbiased : e + (1023 : ℕ) + (52 : ℕ) = e + 1075 := by omega
  have hlog : m.log2 + 1 = 53 ↔ 2 ^ 52 ≤ m := by
    have hlog := Nat.log2_eq_iff (n := m) (k := 52) (by omega)
    omega
  rw [hpack, hbiased]
  by_cases he : 971 < e
  · rw [if_pos (by omega), if_pos he, unpack_packedInfinity]
  · rw [if_neg (by omega), if_neg he]
    split
    · next hfull => exact unpack_normal s (hlog.1 hfull) hlt hleast (by omega)
    · next hsub =>
      obtain rfl : e = -1074 := h.full.resolve_right fun hfull => hsub (hlog.2 hfull)
      exact unpack_subnormal s (by omega)

end Stored

/-! ## Doubles -/

section Doubles

variable {x y z : Float}

/-- The units of a double. -/
def value (x : Float) : ℤ := units x.toModel.unpack

theorem isNaN_eq_false_iff : x.isNaN = false ↔ x.toModel.unpack ≠ .notANumber := by
  show x.toModel.unpack.isNaN = false ↔ _
  cases x.toModel.unpack <;> simp [UnpackedFloat.isNaN]

theorem compare_unpack (x y : Float) : x.toModel.unpack.compare y.toModel.unpack =
    if x.isNaN = false ∧ y.isNaN = false then some (compare (value x) (value y)) else none := by
  split
  · next h =>
    exact compare_eq_compare_units (canonical_unpack _) (canonical_unpack _) (isNaN_eq_false_iff.1 h.1)
      (isNaN_eq_false_iff.1 h.2)
  · next h =>
    rcases not_and_or.1 h with hx | hy
    · rw [not_not.1 fun hne => hx (isNaN_eq_false_iff.2 hne)]
      rfl
    · rw [not_not.1 fun hne => hy (isNaN_eq_false_iff.2 hne)]
      cases x.toModel.unpack <;> rfl

/-- **Doubles are ordered as their units are**, and what is not a number is not ordered. -/
theorem le_iff : x ≤ y ↔ (x.isNaN = false ∧ y.isNaN = false) ∧ value x ≤ value y := by
  have hmodel : x ≤ y ↔ (x.toModel.unpack.compare y.toModel.unpack).any (·.isLE) = true := by
    show decide (x.toModel ≤ y.toModel) = true ↔ _
    rw [decide_eq_true_iff]
    rfl
  rw [hmodel, compare_unpack]
  split
  · next h =>
    rw [and_iff_right h]
    exact Int.isLE_compare
  · next h => exact iff_of_false Bool.false_ne_true fun hle => h hle.1

theorem lt_iff : x < y ↔ (x.isNaN = false ∧ y.isNaN = false) ∧ value x < value y := by
  have hmodel : x < y ↔ (x.toModel.unpack.compare y.toModel.unpack == some .lt) = true := by
    show decide (x.toModel < y.toModel) = true ↔ _
    rw [decide_eq_true_iff]
    rfl
  rw [hmodel, compare_unpack, beq_iff_eq]
  split
  · next h => rw [and_iff_right h, Option.some.injEq, Int.compare_eq_lt]
  · next h => exact iff_of_false nofun fun hlt => h hlt.1

theorem beq_iff : (x == y) = true ↔ (x.isNaN = false ∧ y.isNaN = false) ∧ value x = value y := by
  have hmodel : (x == y) = (x.toModel.unpack.compare y.toModel.unpack == some .eq) := rfl
  rw [hmodel, compare_unpack, beq_iff_eq]
  split
  · next h => rw [and_iff_right h, Option.some.injEq, Int.compare_eq_eq]
  · next h => exact iff_of_false nofun fun heq => h heq.1

theorem le_refl (hx : x.isNaN = false) : x ≤ x := le_iff.2 ⟨⟨hx, hx⟩, le_rfl⟩

theorem le_trans (h : x ≤ y) (h' : y ≤ z) : x ≤ z := by
  obtain ⟨⟨hx, -⟩, hle⟩ := le_iff.1 h
  obtain ⟨⟨-, hz⟩, hle'⟩ := le_iff.1 h'
  exact le_iff.2 ⟨⟨hx, hz⟩, hle.trans hle'⟩

theorem le_of_not_lt (hx : x.isNaN = false) (hy : y.isNaN = false) (h : ¬y < x) : x ≤ y :=
  le_iff.2 ⟨⟨hx, hy⟩, not_lt.1 fun hlt => h (lt_iff.2 ⟨⟨hy, hx⟩, hlt⟩)⟩

theorem le_of_lt (h : x < y) : x ≤ y := by
  obtain ⟨hnumbers, hlt⟩ := lt_iff.1 h
  exact le_iff.2 ⟨hnumbers, hlt.le⟩

theorem beq_of_le_of_le (h : x ≤ y) (h' : y ≤ x) : (x == y) = true := by
  obtain ⟨hnumbers, hle⟩ := le_iff.1 h
  obtain ⟨-, hle'⟩ := le_iff.1 h'
  exact beq_iff.2 ⟨hnumbers, hle.antisymm hle'⟩

/-! ### Least and greatest doubles -/

variable {S T : Set Float}

theorem isNaN_of_isLeast (h : IsLeast S x) : x.isNaN = false := (le_iff.1 (h.2 h.1)).1.1

theorem isNaN_of_isGreatest (h : IsGreatest S x) : x.isNaN = false := (le_iff.1 (h.2 h.1)).1.1

/-- **The smaller of two least doubles** is the least of all. -/
theorem isLeast_smaller (hx : IsLeast S x) (hy : IsLeast T y) : IsLeast (S ∪ T) (smaller x y) := by
  have hnumber := isNaN_of_isLeast hx
  by_cases hlt : y < x
  · have hsmaller : smaller x y = y := if_pos (by rwa [hnumber, Bool.false_or, decide_eq_true_iff])
    rw [hsmaller]
    refine ⟨.inr hy.1, ?_⟩
    rintro z (hz | hz)
    · exact le_trans (le_of_lt hlt) (hx.2 hz)
    · exact hy.2 hz
  · have hsmaller : smaller x y = x := if_neg (by rwa [hnumber, Bool.false_or, decide_eq_true_iff])
    have hle := le_of_not_lt hnumber (isNaN_of_isLeast hy) hlt
    rw [hsmaller]
    refine ⟨.inl hx.1, ?_⟩
    rintro z (hz | hz)
    · exact hx.2 hz
    · exact le_trans hle (hy.2 hz)

/-- **The larger of two greatest doubles** is the greatest of all. -/
theorem isGreatest_larger (hx : IsGreatest S x) (hy : IsGreatest T y) : IsGreatest (S ∪ T) (larger x y) := by
  have hnumber := isNaN_of_isGreatest hx
  by_cases hlt : x < y
  · have hlarger : larger x y = y := if_pos (by rwa [hnumber, Bool.false_or, decide_eq_true_iff])
    rw [hlarger]
    refine ⟨.inr hy.1, ?_⟩
    rintro z (hz | hz)
    · exact le_trans (hx.2 hz) (le_of_lt hlt)
    · exact hy.2 hz
  · have hlarger : larger x y = x := if_neg (by rwa [hnumber, Bool.false_or, decide_eq_true_iff])
    have hle := le_of_not_lt (isNaN_of_isGreatest hy) hnumber hlt
    rw [hlarger]
    refine ⟨.inl hx.1, ?_⟩
    rintro z (hz | hz)
    · exact hx.2 hz
    · exact le_trans (hy.2 hz) hle

end Doubles

end BoardAtlas.Binary64
