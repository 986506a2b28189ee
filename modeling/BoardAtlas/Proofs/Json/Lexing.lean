import Mathlib.Data.List.Forall2
import BoardAtlas.Json.Reader
import BoardAtlas.Json.Printer

/-!
# Reading printed tokens

What the printer writes for a text or a number is one token again. A quoted text ends at its closing quote whatever
follows; a number ends where no number can go on, which is so before every separator.

* `Delimited`, `number?_append`: a number in front of a separator;
* `stringChar?_quotedChar`, `stringBody?_quoted`: every character of a text, and the text;
* `Lexes`, `Lexes.text`, `Lexes.number` and the like: the tokens of a text, one more at the front;
* `Spells`, `Spells.separated`: the tokens of a part of a text, and of parts with commas between them.
-/

namespace BoardAtlas.Json

/-! ## Numbers -/

/-- No number goes on with these characters. -/
def Delimited (rest : List Char) : Prop :=
  ∀ c ∈ rest.head?, c.isDigit = false ∧ c ≠ '.' ∧ c ≠ 'e' ∧ c ≠ 'E'

theorem delimited_nil : Delimited [] := fun _ h => nomatch h

theorem delimited_cons {c : Char} (h : c.isDigit = false ∧ c ≠ '.' ∧ c ≠ 'e' ∧ c ≠ 'E')
    (cs : List Char) : Delimited (c :: cs) := by
  intro d hd
  rwa [← Option.some.inj hd]

section Numbers

variable {rest : List Char}

theorem digitsOf_append (hrest : Delimited rest) (cs : List Char) :
    digitsOf (cs ++ rest) = ((digitsOf cs).1, (digitsOf cs).2 ++ rest) := by
  induction cs with
  | nil =>
    cases rest with
    | nil => rfl
    | cons c cs =>
      have hc : c.isDigit = false := (hrest c rfl).1
      rw [List.nil_append, digitsOf, List.takeWhile_cons, List.dropWhile_cons, hc]
      rfl
  | cons c cs ih =>
    obtain ⟨htake, hdrop⟩ := Prod.mk.inj ih
    rw [digitsOf, digitsOf, List.cons_append, List.takeWhile_cons, List.dropWhile_cons,
      List.takeWhile_cons, List.dropWhile_cons]
    cases c.isDigit with
    | true => rw [if_pos rfl, if_pos rfl, if_pos rfl, if_pos rfl, htake, hdrop]; rfl
    | false => rfl

theorem signOf_append {cs : List Char} (h : cs ≠ []) :
    signOf (cs ++ rest) = ((signOf cs).1, (signOf cs).2 ++ rest) := by
  cases cs with
  | nil => exact absurd rfl h
  | cons c cs =>
    rw [List.cons_append]
    unfold signOf
    split <;> simp_all

theorem exponentPart?_append (hrest : Delimited rest) {cs : List Char}
    {power : Option (Bool × List Char)} (h : exponentPart? cs = some (power, [])) :
    exponentPart? (cs ++ rest) = some (power, rest) := by
  cases cs with
  | nil =>
    cases h
    cases rest with
    | nil => rfl
    | cons c cs =>
      obtain ⟨-, -, he, hE⟩ := hrest c rfl
      exact if_neg (not_or.2 ⟨he, hE⟩)
  | cons c cs =>
    rw [List.cons_append]
    rw [exponentPart?] at h ⊢
    split at h
    · next hc =>
      rw [if_pos hc]
      -- without digits there is no exponent, so that the sign is not the end
      have hne : cs ≠ [] := by
        rintro rfl
        cases h
      simp only [signOf_append hne, digitsOf_append hrest]
      simp only at h
      split at h
      · cases h
      · next hdigits =>
        rw [if_neg hdigits]
        obtain ⟨rfl, htail⟩ := Prod.mk.inj (Option.some.inj h)
        rw [htail]
        rfl
    · cases h

theorem exponentPart?_bind_append (hrest : Delimited rest) {cs : List Char} {j : Json}
    (make : Option (Bool × List Char) → Option Json)
    (h : ((exponentPart? cs).bind fun (power, tail) => (make power).map fun v => (v, tail)) =
      some (j, [])) :
    ((exponentPart? (cs ++ rest)).bind fun (power, tail) => (make power).map fun v => (v, tail)) =
      some (j, rest) := by
  obtain ⟨⟨power, tail⟩, hpower, hmake⟩ := Option.bind_eq_some_iff.1 h
  obtain ⟨v, hv, heq⟩ := Option.map_eq_some_iff.1 hmake
  cases heq
  rw [exponentPart?_append hrest hpower]
  change (make power).map _ = _
  rw [hv]
  rfl

theorem unsigned?_append (hrest : Delimited rest) {negative : Bool} {cs : List Char} {j : Json}
    (h : unsigned? negative cs = some (j, [])) :
    unsigned? negative (cs ++ rest) = some (j, rest) := by
  unfold unsigned? at h ⊢
  rw [digitsOf_append hrest]
  simp only at h ⊢
  split at h
  · cases h
  · next hwhole =>
    rw [if_neg hwhole]
    -- behind the whole digits there is nothing, a point or an exponent part
    cases htail : (digitsOf cs).2 with
    | nil =>
      rw [htail] at h
      have hread := exponentPart?_bind_append hrest (numberOf? negative (digitsOf cs).1 []) h
      cases rest with
      | nil => exact hread
      | cons c cs =>
        obtain ⟨-, hpoint, -, -⟩ := hrest c rfl
        rw [List.nil_append]
        split
        · next heq => exact absurd (List.cons.inj heq).1 hpoint
        · exact hread
    | cons c tail =>
      rw [htail] at h
      by_cases hpoint : c = '.'
      · subst hpoint
        simp only [List.cons_append] at h ⊢
        rw [digitsOf_append hrest]
        simp only
        split at h
        · cases h
        · next hfraction =>
          rw [if_neg hfraction]
          exact exponentPart?_bind_append hrest _ h
      · rw [List.cons_append]
        split
        · next heq => exact absurd (List.cons.inj heq).1 hpoint
        · split at h
          · next heq => exact absurd (List.cons.inj heq).1 hpoint
          · exact exponentPart?_bind_append hrest (numberOf? negative (digitsOf cs).1 []) h

/-- **A number reads the same before a separator** as at the end of a text. -/
theorem number?_append (hrest : Delimited rest) {cs : List Char} {j : Json}
    (h : number? cs = some (j, [])) : number? (cs ++ rest) = some (j, rest) := by
  cases cs with
  | nil => cases h
  | cons c cs =>
    rw [List.cons_append]
    unfold number? at h ⊢
    split
    · next heq =>
      obtain ⟨rfl, rfl⟩ := List.cons.inj heq
      exact unsigned?_append hrest h
    · next hminus =>
      split at h
      · next heq =>
        obtain ⟨rfl, rfl⟩ := List.cons.inj heq
        exact absurd rfl (hminus _)
      · exact unsigned?_append hrest h

end Numbers

/-! ## Texts -/

theorem fourHex?_control : ∀ n < 0x20,
    fourHex? ['0', '0', Nat.digitChar (n / 16), Nat.digitChar (n % 16)] = some n := by
  decide

/-- **A character between quotes** is read back. -/
theorem stringChar?_quotedChar (c : Char) (more : List Char) :
    stringChar? (quotedChar c ++ more) = some (c, more) := by
  unfold quotedChar
  split
  -- named escapes are read back by computation, so that other controls and plain characters are left
  all_goals try rfl
  next _ hslash _ _ _ _ _ =>
    split
    · next hcontrol =>
      have hhex := fourHex?_control c.toNat hcontrol
      have hlow : ¬ (0xD800 ≤ c.toNat ∧ c.toNat ≤ 0xDBFF) := by omega
      have hhigh : ¬ (0xDC00 ≤ c.toNat ∧ c.toNat ≤ 0xDFFF) := by omega
      change (fourHex? _).bind _ = _
      rw [hhex]
      change (if _ then _ else _) = _
      rw [if_neg hlow, if_neg hhigh, Char.ofNat_toNat]
      rfl
    · next hcontrol =>
      change stringChar? (c :: more) = _
      unfold stringChar?
      split <;> simp_all

theorem stringBody?_cons {c x : Char} {cs more : List Char} (hc : c ≠ '"')
    (h : stringChar? (c :: cs) = some (x, more)) :
    stringBody? (c :: cs) = (stringBody? more).map fun (text, tail) => (x :: text, tail) := by
  rw [stringBody?]
  · split
    · next hnone =>
      rw [h] at hnone
      cases hnone
    · next hsome =>
      rw [h] at hsome
      cases hsome
      rfl
  · exact hc

theorem quotedChar_ne_quote (c : Char) : ∃ d cs, quotedChar c = d :: cs ∧ d ≠ '"' := by
  unfold quotedChar
  split
  all_goals try exact ⟨_, _, rfl, by decide⟩
  next hquote _ _ _ _ _ _ =>
    split
    · exact ⟨_, _, rfl, by decide⟩
    · exact ⟨_, _, rfl, hquote⟩

/-- **A text is read back** from between its quotes, whatever its characters are and whatever follows. -/
theorem stringBody?_quoted (cs rest : List Char) :
    stringBody? (cs.flatMap quotedChar ++ '"' :: rest) = some (cs, rest) := by
  induction cs with
  | nil => rw [List.flatMap_nil, List.nil_append, stringBody?]
  | cons c cs ih =>
    obtain ⟨d, ds, hchar, hd⟩ := quotedChar_ne_quote c
    have hread := stringChar?_quotedChar c (cs.flatMap quotedChar ++ '"' :: rest)
    rw [hchar, List.cons_append] at hread
    rw [List.flatMap_cons, List.append_assoc, hchar, List.cons_append,
      stringBody?_cons hd hread, ih]
    rfl

/-! ## Tokens -/

/-- The tokens of these characters. -/
def Lexes (cs : List Char) (ts : List Token) : Prop := ∀ n, cs.length ≤ n → tokensWithin? n cs = some ts

theorem Lexes.tokens?_eq {cs : List Char} {ts : List Token} (h : Lexes cs ts) : tokens? cs = some ts :=
  h cs.length (Nat.le_refl _)

theorem lexes_nil : Lexes [] [] := by
  intro n _
  cases n <;> rfl

section Tokens

variable {rest : List Char} {ts : List Token}

theorem Lexes.cons {c : Char} {cs : List Char} {t : Token} (hspace : isSpace c = false)
    (ht : token? (c :: (cs ++ rest)) = some (t, rest)) (h : Lexes rest ts) :
    Lexes (c :: cs ++ rest) (t :: ts) := by
  intro n hn
  cases n with
  | zero => exact absurd hn (Nat.not_succ_le_zero _)
  | succ n =>
    have hlen : rest.length ≤ n := by
      simp only [List.cons_append, List.length_cons, List.length_append] at hn
      omega
    rw [List.cons_append, tokensWithin?, hspace, if_neg Bool.false_ne_true, ht]
    change (tokensWithin? n rest).map _ = _
    rw [h n hlen]
    rfl

theorem Lexes.mark {c : Char} {t : Token} (hspace : isSpace c = false)
    (ht : token? (c :: rest) = some (t, rest)) (h : Lexes rest ts) : Lexes (c :: rest) (t :: ts) :=
  @Lexes.cons rest ts c [] t hspace ht h

theorem Lexes.null (h : Lexes rest ts) : Lexes (Json.null.compactChars ++ rest) (.leaf .null :: ts) :=
  @Lexes.cons rest ts 'n' ['u', 'l', 'l'] (.leaf .null) rfl rfl h

theorem Lexes.bool (b : Bool) (h : Lexes rest ts) :
    Lexes ((Json.bool b).compactChars ++ rest) (.leaf (.bool b) :: ts) := by
  cases b with
  | false => exact @Lexes.cons rest ts 'f' ['a', 'l', 's', 'e'] (.leaf (.bool false)) rfl rfl h
  | true => exact @Lexes.cons rest ts 't' ['r', 'u', 'e'] (.leaf (.bool true)) rfl rfl h

theorem Lexes.text (s : String) (h : Lexes rest ts) : Lexes (quoted s ++ rest) (.text s :: ts) := by
  have hbody := stringBody?_quoted s.toList rest
  have hquote : '"' :: s.toList.flatMap quotedChar ++ ['"'] =
      '"' :: (s.toList.flatMap quotedChar ++ ['"']) := rfl
  rw [quoted, hquote]
  apply h.cons rfl
  rw [List.append_assoc]
  change (stringBody? (_ ++ '"' :: rest)).map _ = _
  rw [hbody]
  change some (Token.text (String.ofList s.toList), rest) = _
  rw [String.ofList_toList]

theorem number?_head {c : Char} {cs : List Char} {r : Json × List Char}
    (h : number? (c :: cs) = some r) : c = '-' ∨ c.isDigit = true := by
  by_cases hminus : c = '-'
  · exact Or.inl hminus
  · right
    cases hc : c.isDigit with
    | true => rfl
    | false =>
      have hnone : number? (c :: cs) = none := by
        unfold number?
        split
        · next heq => exact absurd (List.cons.inj heq).1 hminus
        · have hwhole : (digitsOf (c :: cs)).1 = [] := by
            rw [digitsOf, List.takeWhile_cons, hc]
            rfl
          unfold unsigned?
          simp only [hwhole, true_or, if_true]
      rw [hnone] at h
      cases h

theorem token?_number {c : Char} (hc : c = '-' ∨ c.isDigit = true) (cs : List Char) :
    isSpace c = false ∧ token? (c :: cs) = (number? (c :: cs)).map fun (v, rest) => (.leaf v, rest) := by
  have hother : ∀ d : Char, d ≠ '-' → d.isDigit = false → c ≠ d := by
    rintro d hminus hdigit rfl
    rcases hc with hc | hc
    · exact hminus hc
    · rw [hc] at hdigit
      cases hdigit
  refine ⟨?_, ?_⟩
  · have hspace := hother ' ' (by decide) (by decide)
    have htab := hother '\t' (by decide) (by decide)
    have hline := hother '\n' (by decide) (by decide)
    have hreturn := hother '\r' (by decide) (by decide)
    simp [isSpace, hspace, htab, hline, hreturn]
  · unfold token?
    split <;> first | rfl | (next heq => exact absurd (List.cons.inj heq).1 (hother _ (by decide) (by decide)))

theorem Lexes.number (hrest : Delimited rest) {cs : List Char} {j : Json}
    (hread : number? cs = some (j, [])) (h : Lexes rest ts) : Lexes (cs ++ rest) (.leaf j :: ts) := by
  cases cs with
  | nil => cases hread
  | cons c cs =>
    obtain ⟨hspace, htoken⟩ := token?_number (number?_head hread) (cs ++ rest)
    apply h.cons hspace
    rw [htoken, ← List.cons_append, number?_append hrest hread]
    rfl

end Tokens

/-! ## Parts of a text -/

/-- The tokens of these characters wherever a separator or the end follows. -/
def Spells (cs : List Char) (ts : List Token) : Prop :=
  ∀ rest us, Delimited rest → Lexes rest us → Lexes (cs ++ rest) (ts ++ us)

theorem Spells.separated {parts : List (List Char)} {tss : List (List Token)}
    (h : List.Forall₂ Spells parts tss) :
    Spells (separated [','] parts) ([Token.comma].intercalate tss) := by
  induction h with
  | nil => exact fun rest us _ hus => hus
  | @cons part ts parts tss hpart hparts ih =>
    cases hparts with
    | nil =>
      rw [Json.separated, List.intercalate_singleton]
      exact hpart
    | cons hnext hrest =>
      intro rest us hdelimited hus
      rw [Json.separated, List.intercalate_cons_cons, List.append_assoc, List.append_assoc,
        List.append_assoc, List.append_assoc]
      apply hpart
      · exact delimited_cons (by decide) _
      · exact (ih rest us hdelimited hus).mark rfl rfl

end BoardAtlas.Json
