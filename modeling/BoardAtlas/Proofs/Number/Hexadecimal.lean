import BoardAtlas.Board.Flash

/-!
# Hexadecimal addresses

An address is written with `0x` and at least so many digits, and read back whatever their number.

* `hexDigits_of_lt`, `hexDigits_of_le`, `digitsValue_hexDigits`: digits and their number;
* `trim_of_forall`: texts without blanks;
* **`readAddress?_hexText`**: an address of 64 bits is read back.
-/

namespace BoardAtlas

/-! ## Digits -/

theorem hexDigits_of_lt {n : Nat} (h : n < 16) : hexDigits n = [n.digitChar.toUpper] := by
  rw [hexDigits, Nat.toDigits_of_lt_base h, List.map_singleton]

theorem hexDigits_of_le {n : Nat} (h : 16 ≤ n) :
    hexDigits n = hexDigits (n / 16) ++ [(n % 16).digitChar.toUpper] := by
  rw [hexDigits, Nat.toDigits_of_base_le (by decide) h, List.map_append, List.map_singleton]
  rfl

theorem isHexDigit_digitChar : ∀ d < 16, isHexDigit d.digitChar.toUpper = true := by decide

theorem digitsValue_digitChar : ∀ d < 16, digitsValue 16 [d.digitChar.toUpper] = d := by decide

theorem isHexDigit_of_mem_hexDigits {n : Nat} {c : Char} (hc : c ∈ hexDigits n) :
    isHexDigit c = true := by
  induction n using Nat.strongRecOn with
  | ind n ih =>
    by_cases h : n < 16
    · rw [hexDigits_of_lt h, List.mem_singleton] at hc
      subst hc
      exact isHexDigit_digitChar n h
    · rw [hexDigits_of_le (by omega), List.mem_append, List.mem_singleton] at hc
      rcases hc with hc | rfl
      · exact ih (n / 16) (by omega) hc
      · exact isHexDigit_digitChar (n % 16) (Nat.mod_lt n (by decide))

theorem hexDigits_ne_nil (n : Nat) : hexDigits n ≠ [] := by
  rw [hexDigits, Ne, List.map_eq_nil_iff]
  exact Nat.toDigits_ne_nil

theorem digitsValue_concat (base : Nat) (cs : List Char) (c : Char) :
    digitsValue base (cs ++ [c]) = digitsValue base cs * base + digitsValue base [c] := by
  unfold digitsValue
  rw [List.foldl_append, List.foldl_cons, List.foldl_nil, List.foldl_cons, List.foldl_nil]
  simp

theorem digitsValue_hexDigits (n : Nat) : digitsValue 16 (hexDigits n) = n := by
  induction n using Nat.strongRecOn with
  | ind n ih =>
    by_cases h : n < 16
    · rw [hexDigits_of_lt h]
      exact digitsValue_digitChar n h
    · rw [hexDigits_of_le (by omega), digitsValue_concat, ih (n / 16) (by omega),
        digitsValue_digitChar _ (Nat.mod_lt n (by decide))]
      omega

theorem digitsValue_zeros (k : Nat) (cs : List Char) :
    digitsValue 16 (List.replicate k '0' ++ cs) = digitsValue 16 cs := by
  induction k with
  | zero => rfl
  | succ k ih =>
    rw [List.replicate_succ, List.cons_append, ← ih]
    rfl

/-! ## Texts without blanks -/

theorem not_isBlank_of_isHexDigit {c : Char} (h : isHexDigit c = true) :
    Text.isBlank c = false := by
  have hrange : 0x30 ≤ c.toNat ∧ c.toNat ≤ 0x66 := by
    simp only [isHexDigit, Char.isDigit, Bool.or_eq_true, Bool.and_eq_true, decide_eq_true_eq,
      Char.le_def, UInt32.le_iff_toNat_le, ge_iff_le] at h
    unfold Char.toNat
    rcases h with (h | h) | h
    · change 48 ≤ c.val.toNat ∧ c.val.toNat ≤ 57 at h
      omega
    · change 97 ≤ c.val.toNat ∧ c.val.toNat ≤ 102 at h
      omega
    · change 65 ≤ c.val.toNat ∧ c.val.toNat ≤ 70 at h
      omega
  simp [Text.isBlank, Text.blankRanges]
  omega

theorem trim_of_forall {cs : List Char} (h : ∀ c ∈ cs, Text.isBlank c = false) :
    Text.trim cs = cs := by
  have hdrop (ds : List Char) (hd : ∀ c ∈ ds, Text.isBlank c = false) :
      ds.dropWhile Text.isBlank = ds := by
    cases ds with
    | nil => rfl
    | cons c rest => rw [List.dropWhile_cons, hd c List.mem_cons_self, if_neg (by decide)]
  rw [Text.trim, hdrop cs h, hdrop _ fun c hc => h c (List.mem_reverse.1 hc), List.reverse_reverse]

/-! ## Addresses -/

theorem readNatural?_of_digits {isDigit : Char → Bool} (hplus : isDigit '+' = false)
    (base limit : Nat) {cs : List Char} (hne : cs ≠ []) (h : ∀ c ∈ cs, isDigit c = true) :
    readNatural? isDigit base limit cs =
      if digitsValue base cs < limit then some (digitsValue base cs) else none := by
  have hsign : ∀ rest, cs = '+' :: rest → False := by
    rintro rest rfl
    have := h '+' List.mem_cons_self
    rw [hplus] at this
    cases this
  rw [readNatural?.eq_def]
  simp only
  rw [if_pos ⟨hne, List.all_eq_true.2 h⟩]

/-- **An address is read back**, however many digits it is written with. -/
theorem FlashRegion.readAddress?_hexText {n : Nat} (h : n < pow2 64) (width : Nat) :
    readAddress? (hexText n width).toList = some n := by
  have htext : (hexText n width).toList = '0' :: 'x' ::
      (List.replicate (width - (hexDigits n).length) '0' ++ hexDigits n) := by
    simp [hexText]
  have hvalue := digitsValue_zeros (width - (hexDigits n).length) (hexDigits n)
  rw [digitsValue_hexDigits] at hvalue
  have hne : List.replicate (width - (hexDigits n).length) '0' ++ hexDigits n ≠ [] :=
    List.append_ne_nil_of_right_ne_nil _ (hexDigits_ne_nil n)
  have hdigit : ∀ c ∈ List.replicate (width - (hexDigits n).length) '0' ++ hexDigits n,
      isHexDigit c = true := by
    intro c hc
    rcases List.mem_append.1 hc with hc | hc
    · rw [List.eq_of_mem_replicate hc]
      decide
    · exact isHexDigit_of_mem_hexDigits hc
  generalize List.replicate (width - (hexDigits n).length) '0' ++ hexDigits n = body at *
  have hblank : ∀ c ∈ '0' :: 'x' :: body, Text.isBlank c = false := by
    refine List.forall_mem_cons.2 ⟨by decide, List.forall_mem_cons.2 ⟨by decide, ?_⟩⟩
    exact fun c hc => not_isBlank_of_isHexDigit (hdigit c hc)
  rw [readAddress?, htext, trim_of_forall hblank]
  change readNatural? isHexDigit 16 (pow2 64) body = some n
  rw [readNatural?_of_digits (by decide) 16 (pow2 64) hne hdigit, hvalue, if_pos h]

end BoardAtlas
