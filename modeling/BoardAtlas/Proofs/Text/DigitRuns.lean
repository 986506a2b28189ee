import BoardAtlas.Proofs.Text.NaturalOrder
import BoardAtlas.Role.Format
import Mathlib.Algebra.Ring.Nat

/-!
# Digit runs and their numbers

Digit runs are ordered without being turned into numbers: the longer one is greater, leading zeros aside, and runs of
one length are ordered character by character. That is the order of the numbers they write, however long they are. Two
texts are cut at the same places as far as they agree, so a number inside them is met as a whole.

* `Run.push`, `runs_append`, `runs_digits`: the runs of a text with a digit run inside;
* `compareRuns_append`: texts that begin alike;
* `writtenNumber`, `writtenNumber_lt`, `pow_le_writtenNumber`: the number of a digit run and how large it is;
* `compareDigits_eq_compare`: digit runs are ordered by their numbers, then by their lengths;
* **`naturalCompare_digitRun`**: texts that differ first in a number.
-/

namespace BoardAtlas.Text

open Std

/-! ## Runs of a text with a digit run inside -/

/-- A character in front of runs: it lengthens the first run, or is a run of its own. -/
def Run.push (c : Char) (rs : List Run) : List Run :=
  match rs, c.isDigit with
  | .digits ds :: rest, true => .digits (c :: ds) :: rest
  | .other os :: rest, false => .other (c :: os) :: rest
  | rest, _ => Run.single c :: rest

theorem runs_cons (c : Char) (cs : List Char) : runs (c :: cs) = Run.push c (runs cs) := rfl

theorem Run.push_append (c : Char) (r : Run) (rs more : List Run) :
    push c (r :: rs ++ more) = push c (r :: rs) ++ more := by
  unfold push
  cases r <;> cases c.isDigit <;> rfl

theorem Run.push_ne_nil (c : Char) (rs : List Run) : push c rs ≠ [] := by
  unfold push
  split <;> exact List.cons_ne_nil _ _

theorem Run.push_digits {c : Char} (h : c.isDigit = true) (ds : List Char) (rest : List Run) :
    push c (.digits ds :: rest) = .digits (c :: ds) :: rest := by
  rw [push.eq_def, h]

theorem Run.push_before_digits {c : Char} (h : c.isDigit = false) (ds : List Char) (rest : List Run) :
    push c (.digits ds :: rest) = push c [] ++ .digits ds :: rest := by
  rw [push.eq_def, push.eq_def, h]
  rfl

theorem Run.push_runs {c : Char} (h : c.isDigit = true) {cs : List Char} (hcs : ∀ d ∈ cs.head?, d.isDigit = false) :
    push c (runs cs) = .digits [c] :: runs cs := by
  have hsingle : Run.single c = .digits [c] := if_pos h
  cases cs with
  | nil => rw [runs, push.eq_def, hsingle]
  | cons d ds =>
    have hd : d.isDigit = false := hcs d rfl
    rw [runs_cons]
    cases runs ds with
    | nil => simp [push, h, hd, Run.single]
    | cons r rs => cases r <;> simp [push, h, hd, Run.single]

/-- A run of digits is a run of the text, unless digits follow. -/
theorem runs_digits {ds cs : List Char} (hne : ds ≠ []) (hds : ∀ c ∈ ds, c.isDigit = true)
    (hcs : ∀ c ∈ cs.head?, c.isDigit = false) : runs (ds ++ cs) = .digits ds :: runs cs := by
  induction ds with
  | nil => exact absurd rfl hne
  | cons d ds ih =>
    obtain ⟨hd, hds⟩ := List.forall_mem_cons.1 hds
    rw [List.cons_append, runs_cons]
    cases ds with
    | nil => exact Run.push_runs hd hcs
    | cons e ds => rw [ih (List.cons_ne_nil e ds) hds, Run.push_digits hd]

/-- A text that does not end in a digit is cut off from digits behind it. -/
theorem runs_append {us cs ds : List Char} {rest : List Run} (hus : ∀ c ∈ us.getLast?, c.isDigit = false)
    (hcs : runs cs = .digits ds :: rest) : runs (us ++ cs) = runs us ++ runs cs := by
  induction us with
  | nil => rfl
  | cons u us ih =>
    rw [List.cons_append, runs_cons, runs_cons]
    -- Only the last character of `us` meets the digits; any other one meets the first run behind it.
    cases us with
    | nil =>
      rw [List.nil_append, hcs]
      exact Run.push_before_digits (hus u rfl) ds rest
    | cons v us =>
      rw [ih (by simpa using hus)]
      obtain ⟨r, rs, hr⟩ := List.exists_cons_of_ne_nil (Run.push_ne_nil v (runs us))
      rw [runs_cons, hr]
      exact Run.push_append u r rs _

/-- Texts that begin with the same runs are ordered by the others. -/
theorem compareRuns_append (rs ss ts : List Run) : compareRuns (rs ++ ss) (rs ++ ts) = compareRuns ss ts := by
  induction rs with
  | nil => rfl
  | cons r rs ih =>
    have hself : r.compare r = .eq := ReflCmp.compare_self
    rw [List.cons_append, List.cons_append, compareRuns, hself, Ordering.eq_then, ih]

/-! ## The number of a digit run -/

/-- The number that a run of digits writes. -/
def writtenNumber (ds : List Char) : Nat := Nat.ofDigitChars 10 ds 0

theorem writtenNumber_cons (d : Char) (ds : List Char) :
    writtenNumber (d :: ds) = 10 ^ ds.length * (d.toNat - '0'.toNat) + writtenNumber ds := by
  rw [writtenNumber, writtenNumber, Nat.ofDigitChars_cons, Nat.ofDigitChars_eq_ofDigitChars_zero, Nat.mul_zero,
    Nat.zero_add]

theorem writtenNumber_significant (ds : List Char) : writtenNumber (significant ds) = writtenNumber ds := by
  have hzeros : writtenNumber (List.replicate (ds.length - (significant ds).length) '0' ++ significant ds) =
      writtenNumber (significant ds) := by
    rw [writtenNumber, Nat.ofDigitChars_append, Nat.ofDigitChars_replicate_zero, Nat.mul_zero, writtenNumber]
  rw [← hzeros, replicate_append_significant]

theorem digit_le_nine {d : Char} (h : d.isDigit = true) : '0'.toNat ≤ d.toNat ∧ d.toNat ≤ '9'.toNat := by
  simpa [Char.isDigit, UInt32.le_iff_toNat_le] using h

theorem writtenNumber_lt {ds : List Char} (h : ∀ d ∈ ds, d.isDigit = true) : writtenNumber ds < 10 ^ ds.length := by
  induction ds with
  | nil => decide
  | cons d ds ih =>
    obtain ⟨hd, hds⟩ := List.forall_mem_cons.1 h
    have hnine := (digit_le_nine hd).2
    have hrest := ih hds
    have hdigit : 10 ^ ds.length * (d.toNat - '0'.toNat) ≤ 10 ^ ds.length * 9 :=
      Nat.mul_le_mul_left _ (by change d.toNat ≤ 57 at hnine; change d.toNat - 48 ≤ 9; omega)
    rw [writtenNumber_cons, List.length_cons, Nat.pow_succ]
    omega

/-- Without leading zeros the number of digits says how large a number is at least. -/
theorem pow_le_writtenNumber {d : Char} (hd : d.isDigit = true) (hzero : d ≠ '0') (ds : List Char) :
    10 ^ ds.length ≤ writtenNumber (d :: ds) := by
  have hne : d.toNat ≠ '0'.toNat := fun h => hzero (Char.toNat_inj.1 h)
  have hpos : 1 ≤ d.toNat - '0'.toNat := by
    have := (digit_le_nine hd).1
    omega
  rw [writtenNumber_cons]
  exact Nat.le_add_right_of_le (Nat.le_mul_of_pos_right _ hpos)

theorem writtenNumber_lt_of_length_lt {as bs : List Char} (ha : ∀ c ∈ as, c.isDigit = true)
    (hb : ∀ c ∈ bs, c.isDigit = true) (hzero : ∀ c ∈ bs.head?, c ≠ '0') (h : as.length < bs.length) :
    writtenNumber as < writtenNumber bs := by
  cases bs with
  | nil => cases h
  | cons b bs =>
    calc writtenNumber as < 10 ^ as.length := writtenNumber_lt ha
      _ ≤ 10 ^ bs.length := Nat.pow_le_pow_right (by decide) (Nat.le_of_lt_succ h)
      _ ≤ writtenNumber (b :: bs) := pow_le_writtenNumber (hb b List.mem_cons_self) (hzero b rfl) bs

theorem compare_mul_add {p m n x y : Nat} (hx : x < p) (hy : y < p) :
    compare (p * m + x) (p * n + y) = (compare m n).then (compare x y) := by
  have hlt {k l a b : Nat} (h : k < l) (ha : a < p) : p * k + a < p * l + b := by
    have := Nat.mul_le_mul_left p (Nat.succ_le_of_lt h)
    rw [Nat.mul_succ] at this
    omega
  rcases Nat.lt_trichotomy m n with h | rfl | h
  · rw [Nat.compare_eq_lt.2 (hlt h hx), Nat.compare_eq_lt.2 h]
    rfl
  · rw [Nat.compare_eq_eq.2 (rfl : m = m), Ordering.eq_then]
    rcases Nat.lt_trichotomy x y with h | rfl | h
    · rw [Nat.compare_eq_lt.2 h, Nat.compare_eq_lt.2 (Nat.add_lt_add_left h _)]
    · rw [Nat.compare_eq_eq.2 rfl, Nat.compare_eq_eq.2 rfl]
    · rw [Nat.compare_eq_gt.2 h, Nat.compare_eq_gt.2 (Nat.add_lt_add_left h _)]
  · rw [Nat.compare_eq_gt.2 (hlt h hy), Nat.compare_eq_gt.2 h]
    rfl

theorem compare_digit {a b : Char} (ha : a.isDigit = true) (hb : b.isDigit = true) :
    compare a.toNat b.toNat = compare (a.toNat - '0'.toNat) (b.toNat - '0'.toNat) := by
  have ha := (digit_le_nine ha).1
  have hb := (digit_le_nine hb).1
  rcases Nat.lt_trichotomy a.toNat b.toNat with h | h | h
  · rw [Nat.compare_eq_lt.2 h, Nat.compare_eq_lt.2 (by omega)]
  · rw [Nat.compare_eq_eq.2 h, Nat.compare_eq_eq.2 (by omega)]
  · rw [Nat.compare_eq_gt.2 h, Nat.compare_eq_gt.2 (by omega)]

theorem compareChars_eq_compare {as bs : List Char} (ha : ∀ c ∈ as, c.isDigit = true)
    (hb : ∀ c ∈ bs, c.isDigit = true) (h : as.length = bs.length) :
    compareChars as bs = compare (writtenNumber as) (writtenNumber bs) := by
  induction as generalizing bs with
  | nil =>
    cases bs with
    | nil => rfl
    | cons b bs => cases h
  | cons a as ih =>
    cases bs with
    | nil => cases h
    | cons b bs =>
      obtain ⟨hdigit, ha⟩ := List.forall_mem_cons.1 ha
      obtain ⟨hdigit', hb⟩ := List.forall_mem_cons.1 hb
      have hlength : as.length = bs.length := Nat.succ.inj h
      have hlt : writtenNumber as < 10 ^ bs.length := hlength ▸ writtenNumber_lt ha
      rw [compareChars, ih ha hb hlength, compare_digit hdigit hdigit', writtenNumber_cons, writtenNumber_cons,
        hlength, compare_mul_add hlt (writtenNumber_lt hb)]

theorem forall_mem_significant {ds : List Char} (h : ∀ c ∈ ds, c.isDigit = true) :
    ∀ c ∈ significant ds, c.isDigit = true :=
  fun c hc => h c ((List.dropWhile_sublist _).mem hc)

theorem head?_significant_ne_zero (ds : List Char) : ∀ c ∈ (significant ds).head?, c ≠ '0' := by
  intro c hc
  have h := List.head?_dropWhile_not (fun c => decide (c = '0')) ds
  rw [← significant, hc] at h
  simpa using h

/-- **Digit runs are ordered by their numbers**, and runs that write one number by their lengths. -/
theorem compareDigits_eq_compare {as bs : List Char} (ha : ∀ c ∈ as, c.isDigit = true)
    (hb : ∀ c ∈ bs, c.isDigit = true) :
    compareDigits as bs = (compare (writtenNumber as) (writtenNumber bs)).then (compare as.length bs.length) := by
  have ha' := forall_mem_significant ha
  have hb' := forall_mem_significant hb
  have hnumber : (compare (significant as).length (significant bs).length).then
      (compareChars (significant as) (significant bs)) = compare (writtenNumber as) (writtenNumber bs) := by
    rw [← writtenNumber_significant as, ← writtenNumber_significant bs]
    -- Without leading zeros a difference in length decides alone.
    rcases Nat.lt_trichotomy (significant as).length (significant bs).length with h | h | h
    · have hlt := writtenNumber_lt_of_length_lt ha' hb' (head?_significant_ne_zero bs) h
      rw [Nat.compare_eq_lt.2 h, Nat.compare_eq_lt.2 hlt]
      rfl
    · rw [Nat.compare_eq_eq.2 h, Ordering.eq_then]
      exact compareChars_eq_compare ha' hb' h
    · have hlt := writtenNumber_lt_of_length_lt hb' ha' (head?_significant_ne_zero as) h
      rw [Nat.compare_eq_gt.2 h, Nat.compare_eq_gt.2 hlt]
      rfl
  rw [← hnumber]
  rfl

/-! ## Texts -/

/-- **Texts that differ first in a number** are in the order of the two numbers, whatever follows. Where the numbers
are equal the one with fewer leading zeros comes first, and else what follows decides. -/
theorem naturalCompare_digitRun {u d e v w : String} (hu : ∀ c ∈ u.toList.getLast?, c.isDigit = false)
    (hd : isNumeral d = true) (he : isNumeral e = true) (hv : ∀ c ∈ v.toList.head?, c.isDigit = false)
    (hw : ∀ c ∈ w.toList.head?, c.isDigit = false) :
    (writtenNumber d.toList ≠ writtenNumber e.toList → naturalCompare (u ++ d ++ v) (u ++ e ++ w) =
      compare (writtenNumber d.toList) (writtenNumber e.toList)) ∧
    naturalCompare (u ++ d ++ v) (u ++ e ++ w) =
      ((compare (writtenNumber d.toList) (writtenNumber e.toList)).then (compare d.length e.length)).then
        (naturalCompare v w) := by
  obtain ⟨hdne, hd⟩ := isNumeral_iff.1 hd
  obtain ⟨hene, he⟩ := isNumeral_iff.1 he
  have hruns (x y : String) (hne : x.toList ≠ []) (hx : ∀ c ∈ x.toList, c.isDigit = true)
      (hy : ∀ c ∈ y.toList.head?, c.isDigit = false) :
      runs (u ++ x ++ y).toList = runs u.toList ++ .digits x.toList :: runs y.toList := by
    have hrest := runs_digits hne hx hy
    rw [String.toList_append, String.toList_append, List.append_assoc, runs_append hu hrest, hrest]
  have hlaw : naturalCompare (u ++ d ++ v) (u ++ e ++ w) =
      ((compare (writtenNumber d.toList) (writtenNumber e.toList)).then (compare d.length e.length)).then
        (naturalCompare v w) := by
    rw [naturalCompare, hruns d v hdne hd hv, hruns e w hene he hw, compareRuns_append, compareRuns, Run.compare,
      compareDigits_eq_compare hd he, String.length_toList, String.length_toList]
    rfl
  refine ⟨fun hne => ?_, hlaw⟩
  have hdecided : compare (writtenNumber d.toList) (writtenNumber e.toList) ≠ .eq :=
    fun h => hne (Nat.compare_eq_eq.1 h)
  rw [hlaw]
  cases h : compare (writtenNumber d.toList) (writtenNumber e.toList) with
  | eq => exact absurd h hdecided
  | lt => rfl
  | gt => rfl

theorem naturalCompare_digitRun_ports :
    writtenNumber "0007".toList ≠ writtenNumber "123456789012345678901234567890".toList ∧
      naturalCompare "P0007_TX" "P123456789012345678901234567890" = .lt := by
  have hne : writtenNumber "0007".toList ≠ writtenNumber "123456789012345678901234567890".toList := by decide
  have h := (naturalCompare_digitRun (u := "P") (d := "0007") (e := "123456789012345678901234567890") (v := "_TX")
    (w := "") (by simp) (by decide) (by decide) (by simp) (by simp)).1 hne
  exact ⟨hne, h⟩

end BoardAtlas.Text
