import BoardAtlas.Number.Size
import BoardAtlas.Proofs.Text.DigitRuns

/-!
# Digits in groups of three

Commas are put while the digits are read from the left, and each of them depends on how many digits are still to come.
What is in front of a digit therefore does not matter: groups of three at the end keep the commas that they have alone,
and one more stands in front of them. Three digits or less have no comma.

* `Text.flatten_pieces`: a text without its separators;
* `Text.IsDecimal`, `Text.isDecimal_iff`: the decimal digits of a number, which are what it is written with;
* `InThrees`, `exists_inThrees`: digits in groups of three, and that all digits can be grouped so;
* `grouped_append`, `grouped_flatten`: the commas that are put are those between groups of three;
* **`thousands_grouped`**: numbers with commas.
-/

namespace BoardAtlas

open Text

/-! ## Pieces of a text -/

namespace Text

/-- The pieces of a text make up the text without its separators. -/
theorem flatten_pieces (sep : Char) (cs : List Char) : (pieces sep cs).flatten = cs.filter (· ≠ sep) := by
  induction cs with
  | nil => rfl
  | cons c cs ih =>
    rw [pieces]
    by_cases h : c = sep
    · rw [if_pos h, List.filter_cons_of_neg (by simpa using h), ← ih]
      rfl
    · rw [if_neg h, List.filter_cons_of_pos (by simpa using h), ← ih]
      cases pieces sep cs <;> rfl

theorem intercalate_pieces (sep : Char) (cs : List Char) : [sep].intercalate (pieces sep cs) = cs := by
  rw [pieces_eq_splitOn, List.intercalate_splitOn]

theorem pieces_intercalate {sep : Char} {ps : List (List Char)} (hne : ps ≠ []) (h : ∀ p ∈ ps, sep ∉ p) :
    pieces sep ([sep].intercalate ps) = ps := by
  rw [pieces_eq_splitOn, List.splitOn_intercalate sep h hne]

/-! ## Decimal digits -/

/-- **The decimal digits of a number**: ASCII digits that write it, one at least, and no zero in front of others. -/
structure IsDecimal (ds : List Char) (n : ℕ) : Prop where
  digits : ∀ d ∈ ds, d.isDigit = true
  number : writtenNumber ds = n
  ne_nil : ds ≠ []
  leading : 1 < ds.length → ∀ d ∈ ds.head?, d ≠ '0'

section Decimal

variable {ds es : List Char} {n : ℕ}

theorem IsDecimal.length_le (h : IsDecimal ds n) (h' : IsDecimal es n) : es.length ≤ ds.length := by
  by_contra hlt
  have hpos : 0 < ds.length := List.length_pos_iff.2 h.ne_nil
  have hnumber := writtenNumber_lt_of_length_lt h.digits h'.digits (h'.leading (by omega)) (Nat.not_le.1 hlt)
  rw [h.number, h'.number] at hnumber
  exact Nat.lt_irrefl n hnumber

theorem IsDecimal.unique (h : IsDecimal ds n) (h' : IsDecimal es n) : ds = es := by
  have hlength : ds.length = es.length := Nat.le_antisymm (h'.length_le h) (h.length_le h')
  have hcompare := compareChars_eq_compare h.digits h'.digits hlength
  rw [h.number, h'.number, Nat.compare_eq_eq.2 rfl] at hcompare
  exact Std.LawfulEqCmp.eq_of_compare hcompare

theorem writtenNumber_zero_cons (ds : List Char) : writtenNumber ('0' :: ds) = writtenNumber ds := by
  rw [writtenNumber_cons, Nat.sub_self, Nat.mul_zero, Nat.zero_add]

theorem toDigits_ne_zero_cons {rest : List Char} (hrest : rest ≠ []) : Nat.toDigits 10 n ≠ '0' :: rest := by
  intro h
  have hdigits : ∀ d ∈ rest, d.isDigit = true := fun d hd =>
    Nat.isDigit_of_mem_toDigits (b := 10) (n := n) (by decide) (by decide) (h ▸ List.mem_cons_of_mem '0' hd)
  have hnumber : writtenNumber rest = n := by
    rw [← writtenNumber_zero_cons, ← h, writtenNumber, Nat.ofDigitChars_ten_toDigits]
  have hlt : n < 10 ^ rest.length := by
    rw [← hnumber]
    exact writtenNumber_lt hdigits
  have hlength := (Nat.length_toDigits_le_iff (by decide) (List.length_pos_iff.2 hrest)).2 hlt
  rw [h, List.length_cons] at hlength
  exact Nat.not_succ_le_self _ hlength

theorem isDecimal_toDigits (n : ℕ) : IsDecimal (Nat.toDigits 10 n) n where
  digits := fun _ hd => Nat.isDigit_of_mem_toDigits (by decide) (by decide) hd
  number := Nat.ofDigitChars_ten_toDigits
  ne_nil := Nat.toDigits_ne_nil
  leading := by
    rintro hlength d hd rfl
    obtain ⟨rest, hrest⟩ := List.head?_eq_some_iff.1 hd
    rw [hrest, List.length_cons] at hlength
    exact toDigits_ne_zero_cons (List.length_pos_iff.1 (by omega)) hrest

theorem isDecimal_iff : IsDecimal ds n ↔ ds = Nat.toDigits 10 n :=
  ⟨fun h => h.unique (isDecimal_toDigits n), fun h => h ▸ isDecimal_toDigits n⟩

end Decimal

end Text

/-! ## Groups -/

/-- **Groups of three**: one to three characters in the first group, and three in every other one. -/
def InThrees : List (List Char) → Prop
  | [] => False
  | first :: rest => (1 ≤ first.length ∧ first.length ≤ 3) ∧ ∀ group ∈ rest, group.length = 3

namespace InThrees

variable {groups rest : List (List Char)} {group : List Char}

theorem ne_nil (h : InThrees groups) : groups ≠ [] := by
  rintro rfl
  exact h

theorem tail {next : List Char} (h : InThrees (group :: next :: rest)) : InThrees (next :: rest) := by
  obtain ⟨hnext, hrest⟩ := List.forall_mem_cons.1 h.2
  exact ⟨by omega, hrest⟩

theorem flatten_ne_nil (h : InThrees (group :: rest)) : (group :: rest).flatten ≠ [] := by
  rw [List.flatten_cons]
  exact List.append_ne_nil_of_left_ne_nil (List.length_pos_iff.1 h.1.1) _

theorem length_flatten_mod (h : InThrees (group :: rest)) : rest.flatten.length % 3 = 0 := by
  induction rest generalizing group with
  | nil => rfl
  | cons next rest ih =>
    have hnext : next.length = 3 := h.2 next List.mem_cons_self
    have hrest := ih h.tail
    rw [List.flatten_cons, List.length_append]
    omega

end InThrees

theorem exists_inThrees {ds : List Char} (h : ds ≠ []) : ∃ groups, InThrees groups ∧ groups.flatten = ds := by
  induction ds with
  | nil => exact absurd rfl h
  | cons d ds ih =>
    by_cases hds : ds = []
    · exact ⟨[[d]], ⟨by simp, by simp⟩, by rw [hds]; rfl⟩
    · obtain ⟨groups, hgroups, rfl⟩ := ih hds
      obtain ⟨first, rest, rfl⟩ := List.exists_cons_of_ne_nil hgroups.ne_nil
      obtain ⟨⟨-, hle⟩, hrest⟩ := hgroups
      -- The character begins a group of its own where the first group is full.
      by_cases hfull : first.length = 3
      · exact ⟨[d] :: first :: rest, ⟨by simp, List.forall_mem_cons.2 ⟨hfull, hrest⟩⟩, rfl⟩
      · exact ⟨(d :: first) :: rest, ⟨by rw [List.length_cons]; omega, hrest⟩, rfl⟩

/-! ## Commas -/

section Commas

variable {ds es : List Char}

theorem grouped_of_length_le (h : ds.length ≤ 3) : grouped ds = ds := by
  induction ds with
  | nil => rfl
  | cons d ds ih =>
    rw [List.length_cons] at h
    have hcomma : ¬(ds ≠ [] ∧ ds.length % 3 = 0) := by
      rintro ⟨hne, hmod⟩
      have := List.length_pos_iff.2 hne
      omega
    rw [grouped, if_neg hcomma, ih (by omega)]

/-- **A comma stands in front of a multiple of three digits**, whatever is before it, and these digits have the commas
that they have alone. -/
theorem grouped_append (hds : ds ≠ []) (hes : es ≠ []) (h : es.length % 3 = 0) :
    grouped (ds ++ es) = grouped ds ++ ',' :: grouped es := by
  induction ds with
  | nil => exact absurd rfl hds
  | cons d ds ih =>
    rw [List.cons_append, grouped, grouped]
    by_cases hrest : ds = []
    · rw [hrest, List.nil_append, if_pos ⟨hes, h⟩, if_neg (fun hcomma => hcomma.1 rfl)]
      rfl
    · have hcomma : (ds ++ es ≠ [] ∧ (ds ++ es).length % 3 = 0) ↔ (ds ≠ [] ∧ ds.length % 3 = 0) := by
        have hmod : (ds ++ es).length % 3 = ds.length % 3 := by
          rw [List.length_append]
          omega
        rw [hmod]
        simp [hrest]
      rw [ih hrest]
      simp only [hcomma]
      split <;> rfl

/-- **Commas between groups of three.** -/
theorem grouped_flatten {groups : List (List Char)} (h : InThrees groups) :
    grouped groups.flatten = [','].intercalate groups := by
  induction groups with
  | nil => exact absurd rfl h.ne_nil
  | cons first rest ih =>
    obtain ⟨hpos, hle⟩ := h.1
    cases rest with
    | nil => rw [List.flatten_singleton, List.intercalate_singleton, grouped_of_length_le hle]
    | cons next rest =>
      have hfirst : first ≠ [] := List.length_pos_iff.1 hpos
      rw [List.flatten_cons, grouped_append hfirst h.tail.flatten_ne_nil h.length_flatten_mod,
        grouped_of_length_le hle, ih h.tail, List.intercalate_cons_cons, List.append_assoc, List.singleton_append]

end Commas

/-! ## Numbers with commas -/

/-- **A number with commas**: without them a text is the decimal digits of the number, and the pieces between them are
groups of three. -/
structure IsGrouped (text : String) (n : ℕ) : Prop where
  digits : IsDecimal (text.toList.filter (· ≠ ',')) n
  groups : InThrees (pieces ',' text.toList)

theorem toList_thousands (n : ℕ) : (thousands n).toList = grouped (Nat.toDigits 10 n) := String.toList_ofList

theorem isGrouped_thousands (n : ℕ) : IsGrouped (thousands n) n := by
  obtain ⟨groups, hgroups, hflatten⟩ := exists_inThrees (Nat.toDigits_ne_nil (n := n) (b := 10))
  have hcomma : ∀ group ∈ groups, ',' ∉ group := by
    intro group hgroup hmem
    have hdigit := (isDecimal_toDigits n).digits ',' (hflatten ▸ List.mem_flatten.2 ⟨group, hgroup, hmem⟩)
    exact absurd hdigit (by decide)
  have hpieces : pieces ',' (thousands n).toList = groups := by
    rw [toList_thousands, ← hflatten, grouped_flatten hgroups, pieces_intercalate hgroups.ne_nil hcomma]
  refine ⟨?_, hpieces ▸ hgroups⟩
  rw [← flatten_pieces, hpieces, hflatten]
  exact isDecimal_toDigits n

theorem IsGrouped.eq_thousands {text : String} {n : ℕ} (h : IsGrouped text n) : text = thousands n := by
  have hdigits : (pieces ',' text.toList).flatten = Nat.toDigits 10 n := by
    rw [flatten_pieces, isDecimal_iff.1 h.digits]
  rw [← String.toList_inj, toList_thousands, ← hdigits, grouped_flatten h.groups, intercalate_pieces]

/-- **Numbers are written with a comma before every three digits.** A natural number is written as its decimal digits
with commas, one to three digits before the first comma and three behind each, and this is the only such text. -/
theorem thousands_grouped (n : ℕ) :
    (thousands n).toList.filter (· ≠ ',') = (toString n).toList ∧
    ∀ text, text = thousands n ↔ IsGrouped text n := by
  refine ⟨?_, fun text => ⟨fun h => h ▸ isGrouped_thousands n, IsGrouped.eq_thousands⟩⟩
  rw [isDecimal_iff.1 (isGrouped_thousands n).digits]
  exact Nat.toList_repr.symm

example : [0, 999, 1000, 1048576].map thousands = ["0", "999", "1,000", "1,048,576"] := by decide +kernel

end BoardAtlas
