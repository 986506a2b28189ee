import BoardAtlas.Proofs.Board.FlashLayout
import Mathlib.Data.List.Induction
import Mathlib.Data.List.TakeWhile
import Mathlib.Data.Nat.Digits.Defs

/-!
# The grammar of flash layouts

An entry of a layout is two hexadecimal numbers with a plus sign between them. Blanks may stand around each number, and
`0x` in front of its digits. The reader of numbers also takes a plus sign in front of digits: since an entry is cut at
its first plus sign, the offset never has one, but the length may.

* `hexNumber`, `digitsValue_eq_hexNumber`: the number that digits write;
* `Text.trim_append`, `Text.exists_trim`: blanks at both ends;
* `Numeral`, `readAddress?_eq_some_iff`: what is read as a number;
* `Extent`, `readExtent?_eq_some_iff`, `Extent.count_plus`: what is read as an entry;
* **`FlashRegion.ofLayout_grammar`**: the layouts that are accepted, and what the others fail with.
-/

namespace BoardAtlas

/-! ## Blanks at both ends -/

namespace Text

theorem trim_append {front body back : List Char} (hfront : ∀ c ∈ front, isBlank c = true)
    (hbody : ∀ c ∈ body, isBlank c = false) (hback : ∀ c ∈ back, isBlank c = true) :
    trim (front ++ body ++ back) = body := by
  have htrim : trim body = body := trim_of_forall hbody
  cases body with
  | nil =>
    have hall : ∀ c ∈ front ++ back, isBlank c = true := List.forall_mem_append.2 ⟨hfront, hback⟩
    rw [trim, List.append_nil, List.dropWhile_eq_nil_iff.2 hall]
    rfl
  | cons c rest =>
    have hc : ¬ isBlank c = true := by simp [hbody c List.mem_cons_self]
    have hreverse : ∀ c ∈ back.reverse, isBlank c = true := fun c h => hback c (List.mem_reverse.1 h)
    rw [trim, List.dropWhile_cons_of_neg hc] at htrim
    rw [trim, List.append_assoc, List.dropWhile_append_of_pos hfront, List.cons_append, List.dropWhile_cons_of_neg hc,
      ← List.cons_append, List.reverse_append, List.dropWhile_append_of_pos hreverse, htrim]

theorem exists_trim (cs : List Char) : ∃ front back, cs = front ++ trim cs ++ back ∧
    (∀ c ∈ front, isBlank c = true) ∧ ∀ c ∈ back, isBlank c = true := by
  refine ⟨cs.takeWhile isBlank, ((cs.dropWhile isBlank).reverse.takeWhile isBlank).reverse, ?_, ?_, ?_⟩
  · rw [trim, List.append_assoc, ← List.reverse_append, List.takeWhile_append_dropWhile, List.reverse_reverse,
      List.takeWhile_append_dropWhile]
  · exact fun c hc => List.mem_takeWhile_imp hc
  · exact fun c hc => List.mem_takeWhile_imp (List.mem_reverse.1 hc)

end Text

/-! ## Hexadecimal numbers -/

/-- The place of a hexadecimal digit among all of them. -/
def hexDigitNumber (c : Char) : Nat := "0123456789abcdef".toList.idxOf c.toLower

/-- The number that hexadecimal digits write. -/
def hexNumber (ds : List Char) : Nat := Nat.ofDigits 16 (ds.reverse.map hexDigitNumber)

theorem digitsValue_eq_hexDigitNumber {c : Char} (h : isHexDigit c = true) : digitsValue 16 [c] = hexDigitNumber c := by
  have hlt : c.toNat < 128 := by
    simp only [isHexDigit, Char.isDigit, Bool.or_eq_true, Bool.and_eq_true, decide_eq_true_eq, Char.le_def,
      UInt32.le_iff_toNat_le] at h
    change (_ ∧ c.toNat ≤ 57 ∨ _ ∧ c.toNat ≤ 102) ∨ _ ∧ c.toNat ≤ 70 at h
    omega
  have hall : ∀ n < 128, isHexDigit (Char.ofNat n) = true →
      digitsValue 16 [Char.ofNat n] = hexDigitNumber (Char.ofNat n) := by decide
  have hc := hall c.toNat hlt
  rw [Char.ofNat_toNat] at hc
  exact hc h

theorem digitsValue_eq_hexNumber {ds : List Char} (h : ∀ c ∈ ds, isHexDigit c = true) :
    digitsValue 16 ds = hexNumber ds := by
  induction ds using List.reverseRecOn with
  | nil => rfl
  | append_singleton ds d ih =>
    obtain ⟨hds, hd⟩ := List.forall_mem_append.1 h
    have hlast := digitsValue_eq_hexDigitNumber (hd d (List.mem_singleton_self d))
    rw [digitsValue_concat, ih hds, hlast, hexNumber, hexNumber, List.reverse_append, List.reverse_singleton,
      List.singleton_append, List.map_cons, Nat.ofDigits_cons]
    omega

/-! ## Numbers of an entry -/

/-- What may stand in front of the digits of a number. -/
def hexMarks : List (List Char) := [[], ['0', 'x'], ['0', 'X']]

/-- The signs that the reader of digits takes: none, or a plus sign. -/
def plusSigns : List (List Char) := [[], ['+']]

/-- A number as it is written: blanks, perhaps `0x`, the sign, digits, blanks. -/
inductive Numeral (sign : List Char) : List Char → Nat → Prop
  | mk {front mark digits back : List Char} (hfront : ∀ c ∈ front, Text.isBlank c = true) (hmark : mark ∈ hexMarks)
      (hne : digits ≠ []) (hdigits : ∀ c ∈ digits, isHexDigit c = true) (hback : ∀ c ∈ back, Text.isBlank c = true) :
      Numeral sign (front ++ (mark ++ (sign ++ digits)) ++ back) (hexNumber digits)

theorem not_isBlank_of_mem {mark sign digits : List Char} (hmark : mark ∈ hexMarks) (hsign : sign ∈ plusSigns)
    (hdigits : ∀ c ∈ digits, isHexDigit c = true) : ∀ c ∈ mark ++ (sign ++ digits), Text.isBlank c = false := by
  have hx : Text.isBlank 'x' = false ∧ Text.isBlank 'X' = false := by decide
  have hzero : Text.isBlank '0' = false ∧ Text.isBlank '+' = false := by decide
  have hmarks : ∀ mark ∈ hexMarks, ∀ c ∈ mark, Text.isBlank c = false := by simp [hexMarks, hx, hzero]
  have hsigns : ∀ sign ∈ plusSigns, ∀ c ∈ sign, Text.isBlank c = false := by simp [plusSigns, hzero]
  refine List.forall_mem_append.2 ⟨hmarks mark hmark, List.forall_mem_append.2 ⟨hsigns sign hsign, fun c hc => ?_⟩⟩
  exact not_isBlank_of_isHexDigit (hdigits c hc)

namespace FlashRegion

theorem exists_hexBody (cs : List Char) : ∃ mark ∈ hexMarks, cs = mark ++ hexBody cs := by
  unfold hexBody
  split
  · exact ⟨['0', 'x'], by decide, rfl⟩
  · exact ⟨['0', 'X'], by decide, rfl⟩
  · exact ⟨[], by decide, rfl⟩

theorem hexBody_append {mark sign digits : List Char} (hmark : mark ∈ hexMarks) (hsign : sign ∈ plusSigns)
    (hdigits : ∀ c ∈ digits, isHexDigit c = true) : hexBody (mark ++ (sign ++ digits)) = sign ++ digits := by
  have hbody : hexBody (sign ++ digits) = sign ++ digits := by
    have hx : ¬ isHexDigit 'x' = true := by decide
    have hX : ¬ isHexDigit 'X' = true := by decide
    -- A mark taken off here would have its letter among the digits.
    simp only [plusSigns, List.mem_cons, List.not_mem_nil, or_false] at hsign
    rcases hsign with rfl | rfl
    · unfold hexBody
      split
      · exact absurd (hdigits 'x' (by simp_all)) hx
      · exact absurd (hdigits 'X' (by simp_all)) hX
      · rfl
    · rfl
  simp only [hexMarks, List.mem_cons, List.not_mem_nil, or_false] at hmark
  rcases hmark with rfl | rfl | rfl
  · exact hbody
  · rfl
  · rfl

end FlashRegion

theorem readNatural?_of_hexDigits {digits : List Char} (hne : digits ≠ [])
    (hdigits : ∀ c ∈ digits, isHexDigit c = true) {sign : List Char} (hsign : sign ∈ plusSigns) (limit : Nat) :
    readNatural? isHexDigit 16 limit (sign ++ digits) =
      if hexNumber digits < limit then some (hexNumber digits) else none := by
  have hplain := readNatural?_of_digits (by decide : isHexDigit '+' = false) 16 limit hne hdigits
  rw [digitsValue_eq_hexNumber hdigits] at hplain
  simp only [plusSigns, List.mem_cons, List.not_mem_nil, or_false] at hsign
  rcases hsign with rfl | rfl
  · exact hplain
  · rw [← digitsValue_eq_hexNumber hdigits]
    exact if_pos ⟨hne, List.all_eq_true.2 hdigits⟩

theorem exists_of_readNatural? {cs : List Char} {limit n : Nat}
    (h : readNatural? isHexDigit 16 limit cs = some n) : ∃ sign ∈ plusSigns, ∃ digits, cs = sign ++ digits ∧
      digits ≠ [] ∧ ∀ c ∈ digits, isHexDigit c = true := by
  have hdigits {digits : List Char} (h : (if digits ≠ [] ∧ digits.all isHexDigit = true then
      (if digitsValue 16 digits < limit then some (digitsValue 16 digits) else none) else none) = some n) :
      digits ≠ [] ∧ ∀ c ∈ digits, isHexDigit c = true := by
    split at h
    · next hok => exact ⟨hok.1, List.all_eq_true.1 hok.2⟩
    · cases h
  rw [readNatural?.eq_def] at h
  dsimp only at h
  split at h
  · exact ⟨['+'], by decide, _, rfl, hdigits h⟩
  · exact ⟨[], by decide, _, rfl, hdigits h⟩

namespace FlashRegion

/-- **What is read as an address**: a number below the limit of 64 bits, perhaps with a plus sign. -/
theorem readAddress?_eq_some_iff {cs : List Char} {n : Nat} :
    readAddress? cs = some n ↔ n < 2 ^ 64 ∧ ∃ sign ∈ plusSigns, Numeral sign cs n := by
  constructor
  · intro h
    obtain ⟨front, back, hcs, hfront, hback⟩ := Text.exists_trim cs
    obtain ⟨mark, hmark, htrim⟩ := exists_hexBody (Text.trim cs)
    rw [readAddress?] at h
    obtain ⟨sign, hsign, digits, hbody, hne, hdigits⟩ := exists_of_readNatural? h
    rw [hbody, readNatural?_of_hexDigits hne hdigits hsign] at h
    split at h
    · next hlt =>
      cases h
      rw [htrim, hbody] at hcs
      rw [hcs]
      exact ⟨hlt, sign, hsign, .mk hfront hmark hne hdigits hback⟩
    · cases h
  · rintro ⟨hlt, sign, hsign, ⟨hfront, hmark, hne, hdigits, hback⟩⟩
    rw [readAddress?, Text.trim_append hfront (not_isBlank_of_mem hmark hsign hdigits) hback,
      hexBody_append hmark hsign hdigits, readNatural?_of_hexDigits hne hdigits hsign]
    exact if_pos hlt

end FlashRegion

/-! ## Entries -/

theorem count_plus_eq_zero {cs : List Char} {p : Char → Bool} (hcs : ∀ c ∈ cs, p c = true) (hplus : p '+' = false) :
    cs.count '+' = 0 := by
  refine List.count_eq_zero.2 fun hmem => ?_
  rw [hcs _ hmem] at hplus
  cases hplus

theorem Numeral.count_plus {sign cs : List Char} {n : Nat} (h : Numeral sign cs n) : cs.count '+' = sign.count '+' := by
  obtain ⟨hfront, hmark, -, hdigits, hback⟩ := h
  have hmarks : ∀ mark ∈ hexMarks, mark.count '+' = 0 := by decide
  rw [List.count_append, List.count_append, List.count_append, List.count_append, count_plus_eq_zero hfront (by decide),
    hmarks _ hmark, count_plus_eq_zero hdigits (by decide), count_plus_eq_zero hback (by decide)]
  omega

/-- An entry as it is written: an offset, a plus sign and a length with the given sign; the region ends within 64 bits,
so that its two numbers are below that limit as well. -/
inductive Extent (sign : List Char) : List Char → Nat → Nat → Prop
  | mk {first second : List Char} {offset length : Nat} (hoffset : Numeral [] first offset)
      (hlength : Numeral sign second length) (hfit : offset + length < 2 ^ 64) :
      Extent sign (first ++ '+' :: second) offset length

/-- Apart from the one between its numbers, the only plus sign of an entry is the sign of its length. -/
theorem Extent.count_plus {sign cs : List Char} {offset length : Nat} (h : Extent sign cs offset length) :
    cs.count '+' = 1 + sign.count '+' := by
  obtain ⟨hoffset, hlength, -⟩ := h
  rw [List.count_append, List.count_cons_self, hoffset.count_plus, hlength.count_plus, List.count_nil]
  omega

namespace FlashRegion

/-- **What is read as an entry.** -/
theorem readExtent?_eq_some_iff {s : String} {offset length : Nat} :
    readExtent? s = some (offset, length) ↔ ∃ sign ∈ plusSigns, Extent sign s.toList offset length := by
  constructor
  · intro h
    simp only [readExtent?, Option.bind_eq_bind, Option.bind_eq_some_iff] at h
    obtain ⟨⟨first, second⟩, hcut, o, hoffset, l, hlength, h⟩ := h
    split at h
    · next hfit =>
      cases h
      obtain ⟨htext, hfirst⟩ := Text.cut?_eq_some_iff.1 hcut
      obtain ⟨-, sign, hsign, hlength⟩ := readAddress?_eq_some_iff.1 hlength
      obtain ⟨-, sign', hsign', hoffset⟩ := readAddress?_eq_some_iff.1 hoffset
      -- The text is cut at its first plus sign, which leaves none for the offset.
      have hcount : sign'.count '+' = 0 := hoffset.count_plus ▸ List.count_eq_zero.2 hfirst
      have hplain : ∀ sign ∈ plusSigns, sign.count '+' = 0 → sign = [] := by decide
      obtain rfl := hplain sign' hsign' hcount
      rw [htext]
      exact ⟨sign, hsign, .mk hoffset hlength hfit⟩
    · cases h
  · rintro ⟨sign, hsign, h⟩
    generalize hcs : s.toList = cs at h
    obtain ⟨hoffset, hlength, hfit⟩ := h
    have hcut := Text.cut?_eq_some_iff.2 ⟨hcs, List.count_eq_zero.1 hoffset.count_plus⟩
    have hoffset := readAddress?_eq_some_iff.2 ⟨by omega, [], by decide, hoffset⟩
    have hlength := readAddress?_eq_some_iff.2 ⟨by omega, sign, hsign, hlength⟩
    rw [readExtent?, hcut]
    simp only [Option.bind_eq_bind, Option.bind_some, hoffset, hlength]
    exact if_pos hfit

/-- An entry of a layout that has an offset and a length: a text, the length perhaps with a plus sign. -/
def HasExtent (entry : Value) (offset length : Nat) : Prop :=
  ∃ s, entry = .str s ∧ ∃ sign ∈ plusSigns, Extent sign s.toList offset length

theorem hasExtent_iff {entry : Value} {offset length : Nat} :
    HasExtent entry offset length ↔ entry.text?.bind readExtent? = some (offset, length) := by
  cases entry with
  | str s =>
    rw [Value.text?, Option.bind_some, readExtent?_eq_some_iff]
    constructor
    · rintro ⟨_, ⟨⟩, h⟩
      exact h
    · exact fun h => ⟨s, rfl, h⟩
  | _ => simp [HasExtent, Value.text?]

theorem HasExtent.unique {entry : Value} {offset length offset' length' : Nat} (h : HasExtent entry offset length)
    (h' : HasExtent entry offset' length') : offset = offset' ∧ length = length' := by
  rw [hasExtent_iff] at h h'
  simpa using h.symm.trans h'

section Layout

variable {board name : String} {layout titles : Dict Value} {entry : Value}

theorem exists_ofEntry_eq_ok_iff : (∃ r, ofEntry board titles name entry = .ok r) ↔
    ∃ offset length, HasExtent entry offset length := by
  simp only [ofEntry_eq_ok_iff, ← hasExtent_iff]
  constructor
  · rintro ⟨_, offset, length, h, -⟩
    exact ⟨offset, length, h⟩
  · rintro ⟨offset, length, h⟩
    exact ⟨_, offset, length, h, rfl⟩

theorem ofEntry_eq_error_iff {e : BoardError} : ofEntry board titles name entry = .error e ↔
    (¬ ∃ offset length, HasExtent entry offset length) ∧ e = .invalidRegion board name entry.varText := by
  simp only [hasExtent_iff]
  unfold ofEntry
  cases entry.text?.bind readExtent? with
  | none => simp [eq_comm]
  | some extent =>
    obtain ⟨offset, length⟩ := extent
    simp

end Layout

/-! ## Layouts -/

/-- **The grammar of layouts.** A layout is accepted if every entry is a text that gives an offset and a length, in
one way only, and else fails with its first entry that gives none. The length may have a plus sign of its own. -/
theorem ofLayout_grammar (board : String) (layout titles : Dict Value) :
    (∀ regions, ofLayout board layout titles = .ok regions →
      List.Forall₂ (fun member r => r.name = member.1 ∧ HasExtent member.2 r.offset r.length) layout regions) ∧
    ((∃ regions, ofLayout board layout titles = .ok regions) ↔
      ∀ member ∈ layout, ∃ offset length, HasExtent member.2 offset length) ∧
    (∀ e, ofLayout board layout titles = .error e ↔ ∃ before name entry after,
      layout = before ++ (name, entry) :: after ∧
      (∀ member ∈ before, ∃ offset length, HasExtent member.2 offset length) ∧
      (¬ ∃ offset length, HasExtent entry offset length) ∧ e = .invalidRegion board name entry.varText) ∧
    (∀ entry offset length offset' length', HasExtent entry offset length → HasExtent entry offset' length' →
      offset = offset' ∧ length = length') ∧
    ∀ cs offset length offset' length', Extent [] cs offset length → ¬ Extent ['+'] cs offset' length' := by
  refine ⟨fun regions h => ?regions, ?accepted, fun e => ?failed, fun _ _ _ _ _ h h' => h.unique h', ?signs⟩
  case regions =>
    rw [ofLayout, Except.map_eq_ok] at h
    obtain ⟨entries, hentries, rfl⟩ := h
    rw [Except.mapM_eq_ok_iff] at hentries
    rw [alignDigits, List.forall₂_map_right_iff]
    refine hentries.imp fun member r hr => ?_
    obtain ⟨offset, length, hextent, rfl⟩ := ofEntry_eq_ok_iff.1 hr
    exact ⟨rfl, hasExtent_iff.2 hextent⟩
  case accepted =>
    have hmap : (∃ regions, ofLayout board layout titles = .ok regions) ↔
        ∃ entries, layout.mapM (fun member => ofEntry board titles member.1 member.2) = .ok entries := by
      simp only [ofLayout, Except.map_eq_ok]
      constructor
      · rintro ⟨_, entries, h, -⟩
        exact ⟨entries, h⟩
      · rintro ⟨entries, h⟩
        exact ⟨_, entries, h, rfl⟩
    rw [hmap, Except.exists_mapM_eq_ok_iff]
    exact forall₂_congr fun member _ => exists_ofEntry_eq_ok_iff
  case failed =>
    rw [ofLayout, Except.map_eq_error, ← Except.fault?_eq_some_iff, Except.fault?_mapM, Except.firstFault?_eq_some_iff]
    simp only [exists_ofEntry_eq_ok_iff, ofEntry_eq_error_iff, Prod.exists]
  case signs =>
    intro cs offset length offset' length' h h'
    -- One way the text has one plus sign, the other way two.
    have hcount := h.count_plus.symm.trans h'.count_plus
    cases hcount

/-- A second plus sign is taken for the sign of the length. -/
theorem ofLayout_second_plus : ofLayout "test" [("app", .str "0x0++10")] [] =
      .ok [⟨"app", 0, 16, unknownRegion, false, 1, 2⟩] ∧
    ¬ ∃ offset length, Extent [] "0x0++10".toList offset length := by
  refine ⟨rfl, ?_⟩
  rintro ⟨offset, length, h⟩
  exact absurd h.count_plus (by decide)

theorem ofLayout_grammar_farLayout :
    ofLayout "test" farLayout farTitles = .ok farRegions ∧ HasExtent (.str "ABC+0") 0xABC 0 ∧
      (∀ offset length, HasExtent (.str "ABC+0") offset length → 0xABC = offset ∧ 0 = length) ∧
      Extent [] "ABC+0".toList 0xABC 0 ∧ (∀ offset length, ¬ Extent ['+'] "ABC+0".toList offset length) ∧
      ofLayout "test" [("boot", .str "0x0+0x10"), ("ota", .str "0x1000"), ("app", .str "")] [] =
        .error (.invalidRegion "test" "ota" "0x1000") := by
  have hok : ofLayout "test" farLayout farTitles = .ok farRegions := rfl
  obtain ⟨hregions, -, -, hunique, hsigns⟩ := ofLayout_grammar "test" farLayout farTitles
  obtain ⟨-, haccepted, -⟩ := ofLayout_grammar "test" [("boot", .str "0x0+0x10")] []
  obtain ⟨-, -, hfailed, -⟩ := ofLayout_grammar "test"
    [("boot", .str "0x0+0x10"), ("ota", .str "0x1000"), ("app", .str "")] []
  have hkvs : HasExtent (.str "ABC+0") 0xABC 0 := by
    cases hregions _ hok with
    | cons _ hrest =>
      cases hrest with
      | cons hkvs _ => exact hkvs.2
  have hplain : Extent [] "ABC+0".toList 0xABC 0 :=
    @Extent.mk [] ['A', 'B', 'C'] ['0'] 0xABC 0
      (@Numeral.mk [] [] [] ['A', 'B', 'C'] [] (by simp) (by decide) (by simp) (by simp [isHexDigit]) (by simp))
      (@Numeral.mk [] [] [] ['0'] [] (by simp) (by decide) (by simp) (by simp [isHexDigit]) (by simp)) (by decide)
  have hboot : ∀ member ∈ [("boot", Value.str "0x0+0x10")], ∃ offset length, HasExtent member.2 offset length :=
    haccepted.1 ⟨_, rfl⟩
  have hota : ¬ ∃ offset length, HasExtent (.str "0x1000") offset length := by
    rintro ⟨offset, length, h⟩
    rw [hasExtent_iff] at h
    cases h
  exact ⟨hok, hkvs, fun offset length h => hunique _ _ _ _ _ hkvs h, hplain,
    fun offset length h => hsigns _ _ _ _ _ hplain h, (hfailed _).2 ⟨_, _, _, _, rfl, hboot, hota, rfl⟩⟩

end FlashRegion

end BoardAtlas
