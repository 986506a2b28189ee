import BoardAtlas.Manifest.Value
import BoardAtlas.Proofs.Number.Rationals

/-!
# Integral numbers as text

A double that is an integer of 64 bits is written without a fraction, into manifest text as into JSON, and is read from
that text as the integer that it is. The doubles that are compared with the end of the range step over it: the first
integer behind the range passes for one of it, and is written one too low.

* `toInt?_toString`: the text of an integer is read as that integer;
* `formatNumber_of_int64?`, `toJson_of_int64?`: the two texts are made in one way;
* **`formatNumber_integer`**: which integers are written as they are.
-/

namespace BoardAtlas

open Binary64

variable {x : Float} {k n : ℤ}

theorem toInt?_toString (n : ℤ) : (toString n).toInt? = some n := Int.toInt?_repr n

theorem formatNumber_of_int64? (h : int64? x = some k) : formatNumber x = toString k := by
  rw [formatNumber, h]

theorem toJson_of_int64? (h : int64? x = some k) : (Value.num x).toJson = .int k := by
  rw [Value.toJson, Value.numberJson, h]

theorem int64?_of_rational (hx : x.isFinite = true) (hn : rational x = n) (hlow : -2 ^ 63 ≤ n) (hhigh : n ≤ 2 ^ 63) :
    int64? x = some (min n (2 ^ 63 - 1)) :=
  int64?_eq_some_iff.2 ⟨n, hx, hn, hlow, hhigh, rfl⟩

/-- **Integral numbers are written as themselves**, all but one. For every finite double that is an integer n with
-2^63 ≤ n ≤ 2^63: the manifest text of the double and the integer written to JSON denote n exactly when n is not 2^63,
and both denote 2^63 - 1 when it is; and the JSON text is the manifest text. -/
theorem formatNumber_integer (hx : x.isFinite = true) (hn : rational x = n) (hlow : -2 ^ 63 ≤ n) (hhigh : n ≤ 2 ^ 63) :
    ((formatNumber x).toInt? = some n ↔ n ≠ 2 ^ 63) ∧
    ((Value.num x).toJson = .int n ↔ n ≠ 2 ^ 63) ∧
    (n = 2 ^ 63 → (formatNumber x).toInt? = some (2 ^ 63 - 1) ∧ (Value.num x).toJson = .int (2 ^ 63 - 1)) ∧
    (Value.num x).compact = formatNumber x := by
  have hwritten := int64?_of_rational hx hn hlow hhigh
  have hsame : min n (2 ^ 63 - 1) = n ↔ n ≠ 2 ^ 63 := by omega
  have htext : (formatNumber x).toInt? = some (min n (2 ^ 63 - 1)) := by
    rw [formatNumber_of_int64? hwritten, toInt?_toString]
  have hjson := toJson_of_int64? hwritten
  refine ⟨?text, ?json, ?limit, ?compact⟩
  case text => rw [htext, Option.some.injEq, hsame]
  case json => rw [hjson, Json.int.injEq, hsame]
  case limit =>
    rintro rfl
    exact ⟨htext, hjson⟩
  case compact =>
    rw [Value.compact, hjson, formatNumber_of_int64? hwritten]
    exact String.ofList_toList

theorem formatNumber_integer_limits :
    (formatNumber (-9223372036854775808.0)).toInt? = some (-2 ^ 63) ∧
      (Value.num (-9223372036854775808.0)).toJson = .int (-2 ^ 63) ∧
      (Value.num 9223372036854775808.0).toJson = .int (2 ^ 63 - 1) := by
  obtain ⟨hfirst, hlow⟩ := integer?_eq_some_iff.1
    (by decide +kernel : integer? (-9223372036854775808.0) = some (-2 ^ 63))
  obtain ⟨hlast, hhigh⟩ := integer?_eq_some_iff.1 (by decide +kernel : integer? 9223372036854775808.0 = some (2 ^ 63))
  obtain ⟨htext, hjson, -⟩ := formatNumber_integer hfirst hlow (by decide) (by decide)
  obtain ⟨-, -, hlimit, -⟩ := formatNumber_integer hlast hhigh (by decide) (by decide)
  exact ⟨htext.2 (by decide), hjson.2 (by decide), (hlimit rfl).2⟩

/-- The first integer behind the range is not written as itself. -/
theorem formatNumber_two_pow : ∃ (x : Float) (n : ℤ), x.isFinite = true ∧ rational x = n ∧ -2 ^ 63 ≤ n ∧ n ≤ 2 ^ 63 ∧
    (formatNumber x).toInt? ≠ some n ∧ (Value.num x).toJson ≠ .int n := by
  obtain ⟨hlast, hhigh⟩ := integer?_eq_some_iff.1 (by decide +kernel : integer? 9223372036854775808.0 = some (2 ^ 63))
  have htext : formatNumber 9223372036854775808.0 = toString (2 ^ 63 - 1 : ℤ) :=
    formatNumber_of_int64? (by decide +kernel)
  have hjson : (Value.num 9223372036854775808.0).toJson = .int (2 ^ 63 - 1) := toJson_of_int64? (by decide +kernel)
  refine ⟨9223372036854775808.0, 2 ^ 63, hlast, hhigh, by decide, by decide, ?_, ?_⟩
  · rw [htext, toInt?_toString]
    decide
  · rw [hjson, Ne, Json.int.injEq]
    decide

end BoardAtlas
