import BoardAtlas.Proofs.Manifest.Distinct
import BoardAtlas.Proofs.Manifest.Expansion
import BoardAtlas.Proofs.Result

/-!
# What substitution leaves alone

A text in which nothing asks for substitution stays in front of any text that follows it after a dot, whatever
happens to that one. In an object, members are found under the same keys as before.

* `settle_lead`, `decide_lead`, **`substituteTouched_lead`**: a namespace in front of a text;
* `substituteAll_eq_str`: texts come from texts;
* **`get?_substituteMembers`**: one member of an object.
-/

namespace BoardAtlas

namespace Substitution

/-! ## Texts -/

variable {lead cs : List Char}

theorem isTouched_eq_false : isTouched lead = false ↔ opens lead = false ∧ '<' ∉ lead := by
  simp [isTouched]

theorem opens_cons {c : Char} (h : opens (c :: cs) = false) :
    opens cs = false ∧ ∀ rest, c = '$' → cs ≠ '\x7b' :: rest := by
  by_cases hopen : ∃ rest, c = '$' ∧ cs = '\x7b' :: rest
  · obtain ⟨rest, rfl, rfl⟩ := hopen
    cases h
  · refine ⟨?_, fun rest hc hcs => hopen ⟨rest, hc, hcs⟩⟩
    rw [opens] at h
    · exact h
    · exact fun rest hc hcs => hopen ⟨rest, hc, hcs⟩

theorem not_opens_lead {c : Char} (h : ∀ rest, c = '$' → lead ≠ '\x7b' :: rest) :
    ∀ rest, c = '$' → lead ++ '.' :: cs ≠ '\x7b' :: rest := by
  intro rest hc he
  cases lead with
  | nil => cases he
  | cons d lead =>
    cases he
    exact h lead hc rfl

theorem piecesOf_lead (h : opens lead = false) :
    piecesOf (lead ++ '.' :: cs) = (lead ++ ['.']).map .plain ++ piecesOf cs := by
  unfold piecesOf
  induction lead with
  | nil => exact piecesFrom_plain (by decide) cs
  | cons c lead ih =>
    obtain ⟨hlead, hc⟩ := opens_cons h
    have hfirst : piecesFrom none (c :: (lead ++ '.' :: cs)) =
        .plain c :: piecesFrom none (lead ++ '.' :: cs) := by
      rw [piecesFrom]
      exact not_opens_lead hc
    rw [List.cons_append, hfirst, ih hlead]
    rfl

theorem opens_lead (h : opens lead = false) : opens (lead ++ '.' :: cs) = opens cs := by
  induction lead with
  | nil =>
    rw [List.nil_append, opens]
    rintro rest h -
    cases h
  | cons c lead ih =>
    obtain ⟨hlead, hc⟩ := opens_cons h
    have hfirst : opens (c :: (lead ++ '.' :: cs)) = opens (lead ++ '.' :: cs) := by
      rw [opens]
      exact not_opens_lead hc
    rw [List.cons_append, hfirst, ih hlead]

theorem expand_plain (vars : Vars) (cs : List Char) :
    (cs.map Piece.plain).flatMap (Piece.expand vars) = cs := by
  induction cs with
  | nil => rfl
  | cons c cs ih =>
    rw [List.map_cons, List.flatMap_cons, ih]
    rfl

theorem expand_lead (vars : Vars) (h : opens lead = false) :
    expand vars (lead ++ '.' :: cs) = lead ++ '.' :: expand vars cs := by
  unfold expand
  rw [piecesOf_lead h, List.flatMap_append, expand_plain, List.append_assoc]
  rfl

theorem replaces_lead (vars : Vars) (h : opens lead = false) :
    replaces vars (lead ++ '.' :: cs) = replaces vars cs := by
  have hplain : ∀ cs : List Char,
      (cs.map Piece.plain).any (fun p => (p.value? vars).isSome) = false := by
    intro cs
    simp [Piece.value?, Piece.name?]
  unfold replaces
  rw [piecesOf_lead h, List.any_append, hplain, Bool.false_or]

theorem settle_lead {vars : Vars} {n : Nat} {out : List Char} (h : opens lead = false)
    (hs : settle vars n (lead ++ '.' :: cs) = .ok out) :
    ∃ rest, settle vars n cs = .ok rest ∧ out = lead ++ '.' :: rest := by
  induction n generalizing cs with
  | zero =>
    rw [settle, opens_lead h] at hs
    rw [settle]
    cases ho : opens cs with
    | true => simp [ho] at hs
    | false =>
      simp only [ho, Bool.false_eq_true, if_false] at hs
      cases hs
      exact ⟨cs, by simp, rfl⟩
  | succ n ih =>
    rw [settle, opens_lead h, replaces_lead vars h, expand_lead vars h] at hs
    rw [settle]
    cases ho : opens cs with
    | true =>
      simp only [ho, if_true] at hs ⊢
      cases hr : replaces vars cs with
      | true =>
        simp only [hr, if_true] at hs ⊢
        exact ih hs
      | false => simp [hr] at hs
    | false =>
      simp only [ho, Bool.false_eq_true, if_false] at hs
      cases hs
      exact ⟨cs, by simp, rfl⟩

theorem decide_lead (h : '<' ∉ lead) (cs : List Char) : decide (lead ++ cs) = lead ++ decide cs := by
  induction lead with
  | nil => rfl
  | cons c lead ih =>
    obtain ⟨hc, hlead⟩ := not_or.1 fun hm => h (List.mem_cons.2 hm)
    rw [List.cons_append, decide, if_neg fun e => hc e.symm, ih hlead]
    rfl

theorem isTouched_lead (h : isTouched lead = false) :
    isTouched (lead ++ '.' :: cs) = isTouched cs := by
  obtain ⟨hopens, hcond⟩ := isTouched_eq_false.1 h
  have hcontains : (lead ++ '.' :: cs).contains '<' = cs.contains '<' := by
    rw [Bool.eq_iff_iff]
    simp [hcond]
  unfold isTouched
  rw [opens_lead hopens, hcontains]

end Substitution

theorem toList_dotted (s t : String) : (s ++ "." ++ t).toList = s.toList ++ '.' :: t.toList := by
  simp

/-- **A namespace stays in front of a text** that is substituted behind it. -/
theorem substituteTouched_lead {vars : Vars} {lead s out : String}
    (h : Substitution.isTouched lead.toList = false)
    (hs : substituteTouched vars (lead ++ "." ++ s) = .ok out) :
    ∃ t, substituteTouched vars s = .ok t ∧ out = lead ++ "." ++ t := by
  obtain ⟨hopens, hcond⟩ := Substitution.isTouched_eq_false.1 h
  rw [substituteTouched, toList_dotted, Substitution.isTouched_lead h] at hs
  rw [substituteTouched]
  by_cases hs' : Substitution.isTouched s.toList = true
  · rw [if_pos hs', substituteText, Except.map_eq_ok] at hs
    obtain ⟨settled, hsettle, rfl⟩ := hs
    rw [toList_dotted] at hsettle
    obtain ⟨rest, hrest, rfl⟩ := Substitution.settle_lead hopens hsettle
    have hdot : '<' ∉ lead.toList ++ ['.'] := by simp [hcond]
    have hdecide := Substitution.decide_lead hdot rest
    rw [List.append_assoc] at hdecide
    change Substitution.decide (lead.toList ++ '.' :: rest) = _ at hdecide
    refine ⟨String.ofList (Substitution.decide rest), ?_, ?_⟩
    · rw [if_pos hs', substituteText, hrest]
      rfl
    · rw [hdecide]
      simp [String.ext_iff]
  · rw [if_neg hs'] at hs ⊢
    cases hs
    exact ⟨s, rfl, rfl⟩

theorem substituteTouched_of_untouched (vars : Vars) {s : String}
    (h : Substitution.isTouched s.toList = false) : substituteTouched vars s = .ok s := by
  rw [substituteTouched, h]
  rfl

/-! ## Members -/

theorem substituteAll_eq_str {vars : Vars} {v : Value} {t : String}
    (h : substituteAll vars v = .ok (.str t)) :
    ∃ s, v = .str s ∧ substituteTouched vars s = .ok t := by
  cases v with
  | str s =>
    rw [substituteAll, Except.map_eq_ok] at h
    obtain ⟨t', ht, he⟩ := h
    cases he
    exact ⟨s, rfl, ht⟩
  | list items =>
    rw [substituteAll, Except.map_eq_ok] at h
    obtain ⟨_, -, he⟩ := h
    cases he
  | obj fields =>
    rw [substituteAll, Except.map_eq_ok] at h
    obtain ⟨_, -, he⟩ := h
    cases he
  | _ => cases h

/-- **What an object holds under a key** that no other key turns into. -/
theorem get?_substituteMembers {vars : Vars} {key : String}
    (hkey : Substitution.isTouched key.toList = false) {done data out : Dict Value}
    (hd : data.Distinct) (hk : ∀ k ∈ data.keys, substituteTouched vars k = .ok key → k = key)
    (h : substituteMembers vars done data = .ok out) :
    match data.get? key with
    | none => out.get? key = done.get? key
    | some v => ∃ w, substituteAll vars v = .ok w ∧ out.get? key = some w := by
  induction data generalizing done with
  | nil =>
    cases h
    rfl
  | cons e rest ih =>
    obtain ⟨k, v⟩ := e
    obtain ⟨hfresh, hrest⟩ := List.nodup_cons.1 hd
    obtain ⟨hfirst, hlater⟩ := List.forall_mem_cons.1 hk
    rw [substituteMembers, Except.bind_eq_ok] at h
    obtain ⟨k', hk', h⟩ := h
    obtain ⟨w, hw, h⟩ := Except.bind_eq_ok.1 h
    have hlast := ih hrest hlater h
    rw [Dict.get?_cons]
    by_cases he : k = key
    · subst he
      have hsame : k' = k := by
        rw [substituteTouched_of_untouched vars hkey] at hk'
        cases hk'
        rfl
      rw [Dict.get?_eq_none hfresh, hsame] at hlast
      simp only [if_true]
      refine ⟨w, hw, ?_⟩
      rw [hlast, Dict.get?_insert, if_pos rfl]
    · have hother : k' ≠ key := by
        intro hsame
        subst hsame
        exact he (hfirst hk')
      have hdone : (done.insert k' w).get? key = done.get? key := by
        rw [Dict.get?_insert, if_neg hother]
      rw [hdone] at hlast
      simpa only [if_neg he] using hlast

theorem distinct_substituteMembers {vars : Vars} {done data out : Dict Value} (hd : done.Distinct)
    (h : substituteMembers vars done data = .ok out) : out.Distinct := by
  induction data generalizing done with
  | nil =>
    cases h
    exact hd
  | cons e rest ih =>
    obtain ⟨k, v⟩ := e
    rw [substituteMembers, Except.bind_eq_ok] at h
    obtain ⟨k', -, h⟩ := h
    obtain ⟨w, -, h⟩ := Except.bind_eq_ok.1 h
    exact ih (Dict.distinct_insert hd k' w) h

end BoardAtlas
