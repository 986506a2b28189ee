import BoardAtlas.Proofs.Manifest.Untouched

/-!
# Conditionals in a text

A text is read from the left, and a conditional ends at the first character that can end it. So a text that is put
together from literals and conditionals is cut where it was put together, whatever colons and closing brackets its
literals have, and what a conditional leaves behind is never read.

* `upTo?_append`, `part?_append`, `conditional?_body`: a conditional is cut into its parts;
* `Segment`, `Segment.Sound`: literals and conditionals that cannot be misread;
* `decide_flatMap`: conditionals are decided one by one;
* **`substituteText_segments`**: a text without references.
-/

namespace BoardAtlas

namespace Substitution

/-! ## One conditional -/

/-- A part of a conditional that ends where it is read to end. -/
def PlainPart (part : List Char) : Prop := part ≠ [] ∧ '<' ∉ part ∧ '>' ∉ part ∧ ':' ∉ part ∧ '\n' ∉ part

instance (part : List Char) : Decidable (PlainPart part) := by
  unfold PlainPart
  infer_instance

theorem upTo?_append {stop : Char} {part : List Char} (hs : stop ∉ part) (hn : '\n' ∉ part) (rest : List Char) :
    upTo? stop (part ++ stop :: rest) = some (part, rest) := by
  induction part with
  | nil => simp [upTo?]
  | cons c part ih =>
    obtain ⟨hsc, hs⟩ := not_or.1 fun hm => hs (List.mem_cons.2 hm)
    obtain ⟨hnc, hn⟩ := not_or.1 fun hm => hn (List.mem_cons.2 hm)
    rw [List.cons_append, upTo?, if_neg (Ne.symm hsc), if_neg (Ne.symm hnc), ih hs hn]
    rfl

theorem part?_append {stop : Char} {part : List Char} (hne : part ≠ []) (hs : stop ∉ part) (hn : '\n' ∉ part)
    (rest : List Char) : part? stop (part ++ stop :: rest) = some (part, rest) := by
  cases part with
  | nil => exact absurd rfl hne
  | cons c part =>
    obtain ⟨-, hs⟩ := not_or.1 fun hm => hs (List.mem_cons.2 hm)
    obtain ⟨hnc, hn⟩ := not_or.1 fun hm => hn (List.mem_cons.2 hm)
    rw [List.cons_append, part?, if_neg (Ne.symm hnc), upTo?_append hs hn]
    rfl

/-- All parts of the conditional are plain. -/
def Conditional.Sound (t : Conditional) : Prop :=
  PlainPart t.left ∧ PlainPart t.right ∧ PlainPart t.same ∧ PlainPart t.other

instance (t : Conditional) : Decidable t.Sound := by
  unfold Conditional.Sound
  infer_instance

/-- What is written behind the opening bracket of a conditional. -/
def Conditional.body (t : Conditional) : List Char :=
  t.left ++ ':' :: t.right ++ ':' :: t.same ++ ':' :: t.other ++ ['>']

/-- **A conditional is cut into its parts**, whatever follows it. -/
theorem conditional?_body {t : Conditional} (h : t.Sound) (rest : List Char) :
    conditional? (t.body ++ rest) = some (t, rest) := by
  obtain ⟨hleft, hright, hsame, hother⟩ := h
  have hbody : t.body ++ rest =
      t.left ++ ':' :: (t.right ++ ':' :: (t.same ++ ':' :: (t.other ++ '>' :: rest))) := by
    simp [Conditional.body]
  have hcolon {part : List Char} (hp : PlainPart part) (rest : List Char) :
      part? ':' (part ++ ':' :: rest) = some (part, rest) :=
    part?_append hp.1 hp.2.2.2.1 hp.2.2.2.2 rest
  have hclose : part? '>' (t.other ++ '>' :: rest) = some (t.other, rest) :=
    part?_append hother.1 hother.2.2.1 hother.2.2.2.2 rest
  rw [hbody, conditional?, hcolon hleft]
  simp only [Option.bind_eq_bind, Option.bind_some, hcolon hright, hcolon hsame, hclose]
  rfl

/-! ## Texts with conditionals -/

/-- A stretch of a text: some characters, or a conditional. -/
inductive Segment where
  | literal (cs : List Char)
  | conditional (t : Conditional)

/-- The text of a segment. -/
def Segment.source : Segment → List Char
  | .literal cs => cs
  | .conditional t => '<' :: t.body

/-- A segment that is read as it is written: a literal does not open a conditional, and a conditional has plain
parts. -/
def Segment.Sound : Segment → Prop
  | .literal cs => '<' ∉ cs
  | .conditional t => t.Sound

/-- What a segment stands for: a literal for itself, a conditional for one of its last two parts, which is taken as
it is. -/
def Segment.outcome : Segment → List Char
  | .literal cs => cs
  | .conditional t => if Text.trim t.left = Text.trim t.right then t.same else t.other

instance (g : Segment) : Decidable g.Sound := by
  cases g <;> unfold Segment.Sound <;> infer_instance

/-- **Conditionals are decided one by one.** -/
theorem decide_flatMap {segments : List Segment} (h : ∀ g ∈ segments, g.Sound) :
    decide (segments.flatMap Segment.source) = segments.flatMap Segment.outcome := by
  induction segments with
  | nil => simp [decide]
  | cons g rest ih =>
    obtain ⟨hg, hrest⟩ := List.forall_mem_cons.1 h
    rw [List.flatMap_cons, List.flatMap_cons, ← ih hrest]
    cases g with
    | literal cs => exact decide_lead hg _
    | conditional t =>
      have hcut := conditional?_body hg (rest.flatMap Segment.source)
      change decide ('<' :: (t.body ++ rest.flatMap Segment.source)) = _
      rw [decide, if_pos rfl]
      split
      · next t' tail hread =>
        rw [hcut] at hread
        cases hread
        rfl
      · next hread =>
        rw [hcut] at hread
        cases hread

theorem settle_of_not_opens (vars : Vars) (n : Nat) {cs : List Char} (h : opens cs = false) :
    settle vars n cs = .ok cs := by
  cases n <;> simp [settle, h]

end Substitution

open Substitution

/-- **The conditionals of a text are decided once.** In a text of literals and conditionals that opens no reference,
every conditional is replaced by its third part if the first two are equal up to blanks at their ends, else by its
fourth, which stays as it is written. -/
theorem substituteText_segments (vars : Vars) (segments : List Segment) (hs : ∀ g ∈ segments, g.Sound)
    (ho : opens (segments.flatMap Segment.source) = false) :
    substituteText vars (String.ofList (segments.flatMap Segment.source)) =
      .ok (String.ofList (segments.flatMap Segment.outcome)) := by
  rw [substituteText, String.toList_ofList, settle_of_not_opens vars _ ho, ← decide_flatMap hs]
  rfl

/-- Colons and brackets in the literals, blanks in the conditionals, and a reference that only a replacement opens. -/
def pinSegments : List Segment :=
  [.literal "a:b>".toList, .conditional ⟨" left ".toList, "left".toList, "$".toList, "1".toList⟩,
    .literal "\x7bX\x7d:".toList, .conditional ⟨"x".toList, "y".toList, "2".toList, "-1 ".toList⟩]

theorem substituteText_segments_pinSegments :
    (∀ g ∈ pinSegments, g.Sound) ∧ opens (pinSegments.flatMap Segment.source) = false ∧
      substituteText [("X", .str "3")] "a:b>< left :left:$:1>\x7bX\x7d:<x:y:2:-1 >" =
        .ok "a:b>$\x7bX\x7d:-1 " := by
  have hs : ∀ g ∈ pinSegments, g.Sound := by decide
  have ho : opens (pinSegments.flatMap Segment.source) = false := rfl
  exact ⟨hs, ho, substituteText_segments [("X", .str "3")] pinSegments hs ho⟩

end BoardAtlas
