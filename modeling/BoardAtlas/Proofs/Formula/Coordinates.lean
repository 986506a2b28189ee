import BoardAtlas.Proofs.Formula.Brackets
import BoardAtlas.Text.Cut

/-!
# Coordinate pairs

A list and an object hold the formulas of a pair apart. In a text they are one behind the other, and the first comma
parts them, be it one between the arguments of a call. What formulas are is left to a calculator; all that is asked of
it is that they close their brackets and have commas within brackets only.

* `cutText?_pair`: where the text of a pair is cut;
* `evaluatePair_list`, `evaluatePair_obj`, `evaluatePair_text`: each notation by its two formulas;
* **`evaluatePair_notations`**: the notations agree, but for commas in the first formula.
-/

namespace BoardAtlas

open Formula

/-- A pair as a text is cut at its first comma, wherever that is. -/
theorem cutText?_pair {x y : String} {front back : List Char} (hx : x.toList ++ [','] = front ++ ',' :: back)
    (hfront : ',' ∉ front) :
    Text.cutText? ',' (x ++ "," ++ y) = some (String.ofList front, String.ofList (back ++ y.toList)) := by
  have hcut : Text.cut? ',' (x ++ "," ++ y).toList = some (front, back ++ y.toList) := by
    rw [Text.cut?_eq_some_iff]
    have hcomma : ",".toList = [','] := rfl
    refine ⟨?_, hfront⟩
    rw [String.toList_append, String.toList_append, hcomma, hx, List.append_assoc, List.cons_append]
  rw [Text.cutText?, hcut]
  rfl

section Notations

variable [Calculator] {key x y : String} {vx vy : Float}

theorem exists_evaluateText (key x : String) (h : (evaluateText key x).toOption.isSome = true) :
    ∃ v, evaluateText key x = .ok v := by
  cases hx : evaluateText key x with
  | error e => rw [hx] at h; cases h
  | ok v => exact ⟨v, rfl⟩

theorem evaluatePair_list_eq : evaluatePair key (.list [.str x, .str y]) =
    (evaluateText key x).bind fun vx => (evaluateText key y).bind fun vy => .ok (vx, vy) := rfl

theorem evaluatePair_list (hx : evaluateText key x = .ok vx) (hy : evaluateText key y = .ok vy) :
    evaluatePair key (.list [.str x, .str y]) = .ok (vx, vy) := by
  rw [evaluatePair_list_eq, hx, Except.bind, hy]
  rfl

theorem evaluatePair_obj {fields : Dict Value} (hfx : Dict.get? fields "x" = some (.str x))
    (hfy : Dict.get? fields "y" = some (.str y)) :
    evaluatePair key (.obj fields) = evaluatePair key (.list [.str x, .str y]) := by
  unfold evaluatePair
  simp only [hfx, hfy]

theorem evaluatePair_text {s : String} (hs : Text.cutText? ',' s = some (x, y)) :
    evaluatePair key (.str s) = evaluatePair key (.list [.str x, .str y]) := by
  unfold evaluatePair
  simp only [hs]

theorem evaluatePair_list_error {e : ManifestError} (hx : evaluateText key x = .error e) :
    evaluatePair key (.list [.str x, .str y]) = .error e := by
  rw [evaluatePair_list_eq, hx]
  rfl

/-- **The three notations of a pair.** A list and an object give the values of their formulas. So does a text
whose first formula has no comma; where it has one, its part in front of the first comma is refused, as a bracket
of it is open. -/
theorem evaluatePair_notations (hc : Calculator.Bracketed) (hx : evaluateText key x = .ok vx)
    (hy : evaluateText key y = .ok vy) :
    evaluatePair key (.list [.str x, .str y]) = .ok (vx, vy) ∧
    (∀ fields, Dict.get? fields "x" = some (.str x) → Dict.get? fields "y" = some (.str y) →
      evaluatePair key (.obj fields) = .ok (vx, vy)) ∧
    (',' ∉ x.toList → evaluatePair key (.str (x ++ "," ++ y)) = .ok (vx, vy)) ∧
    (∀ front back, x.toList = front ++ ',' :: back → ',' ∉ front →
      evaluatePair key (.str (x ++ "," ++ y)) = .error (.invalidFormula key (String.ofList front))) := by
  have hlist := evaluatePair_list hx hy
  refine ⟨hlist, fun fields hfx hfy => ?_, fun hcomma => ?_, fun front back hfront hcomma => ?_⟩
  · rw [evaluatePair_obj hfx hfy, hlist]
  · have hcut : Text.cutText? ',' (x ++ "," ++ y) = some (x, y) := by
      have hcut := @cutText?_pair x y x.toList [] rfl hcomma
      rwa [String.ofList_toList, List.nil_append, String.ofList_toList] at hcut
    rw [evaluatePair_text hcut, hlist]
  · have hcut : Text.cutText? ',' (x ++ "," ++ y) =
        some (String.ofList front, String.ofList (back ++ [','] ++ y.toList)) :=
      cutText?_pair (by rw [hfront, List.append_assoc, List.cons_append]) hcomma
    have hread : evaluateText key x ≠ .error (.invalidFormula key x) := by
      rw [hx]
      exact nofun
    have hopen : openBrackets (String.ofList front).toList ≠ 0 := by
      rw [String.toList_ofList]
      exact Int.ne_of_gt (openBrackets_of_evaluateText hc hread hfront)
    rw [evaluatePair_text hcut, evaluatePair_list_error (evaluateText_eq_error hc hopen)]

end Notations

/-! ### Calls as coordinates -/

section Calls

open scoped BoardAtlas.Expr

theorem evaluatePair_notations_calls : Calculator.Bracketed ∧ ∃ low high last,
    evaluateText "pos" " max(pi, min(.5, 2)) " = .ok high ∧ evaluateText "pos" "-.5^2" = .ok low ∧
    evaluateText "pos" "atan2(1,2)" = .ok last ∧
    evaluatePair "pos" (.obj [("y", .str "atan2(1,2)"), ("x", .str "-.5^2")]) = .ok (low, last) ∧
    evaluatePair "pos" (.str "-.5^2,atan2(1,2)") = .ok (low, last) ∧
    evaluatePair "pos" (.str " max(pi, min(.5, 2)) ,atan2(1,2)") = .error (.invalidFormula "pos" " max(pi") ∧
    evaluatePair "pos" (.list [.str " max(pi, min(.5, 2)) ", .str "atan2(1,2)"]) = .ok (high, last) := by
  obtain ⟨high, hhigh⟩ := exists_evaluateText "pos" " max(pi, min(.5, 2)) " (by decide +kernel)
  obtain ⟨low, hlow⟩ := exists_evaluateText "pos" "-.5^2" (by decide +kernel)
  obtain ⟨last, hlast⟩ := exists_evaluateText "pos" "atan2(1,2)" (by decide +kernel)
  obtain ⟨-, hobj, htext, -⟩ := evaluatePair_notations Expr.bracketed_calculator hlow hlast
  obtain ⟨hlist, -, -, hcut⟩ := evaluatePair_notations Expr.bracketed_calculator hhigh hlast
  exact ⟨Expr.bracketed_calculator, low, high, last, hhigh, hlow, hlast, hobj _ rfl rfl, htext (by decide),
    hcut " max(pi".toList " min(.5, 2)) ".toList (by decide) (by decide), hlist⟩

/-- A text of a pair may be cut within a call, and then the notations differ. -/
theorem evaluatePair_cut_within_call : ¬ ∀ (key x y : String) (vx vy : Float),
    evaluateText key x = .ok vx → evaluateText key y = .ok vy →
    evaluatePair key (.str (x ++ "," ++ y)) = evaluatePair key (.list [.str x, .str y]) := by
  intro h
  obtain ⟨vx, hx⟩ := exists_evaluateText "pos" "max(1,2)" (by decide +kernel)
  obtain ⟨vy, hy⟩ := exists_evaluateText "pos" "3" (by decide +kernel)
  have hsame := h "pos" "max(1,2)" "3" vx vy hx hy
  have htext : (evaluatePair "pos" (.str "max(1,2),3")).toOption.isSome = false := by decide +kernel
  rw [evaluatePair_list hx hy] at hsame
  change (evaluatePair "pos" (.str ("max(1,2)" ++ "," ++ "3"))).toOption.isSome = false at htext
  rw [hsame] at htext
  cases htext

end Calls

end BoardAtlas
