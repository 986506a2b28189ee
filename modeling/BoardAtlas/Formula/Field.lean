import BoardAtlas.Manifest.Error
import BoardAtlas.Number.Reading
import BoardAtlas.Text.Blank

/-!
# Numeric fields

A numeric field is a number or a text with a formula; a coordinate pair has three notations. What a formula is, and
what value it has, is left to a calculator.

* `Calculator`: what reads formulas;
* `withZeros`: a zero before every point that has no digit before it;
* `evaluateText`, `evaluateNumber`: a formula, and a number or formula;
* **`evaluatePair`**: `"x,y"`, `[x, y]` or an object with `x` and `y`.
-/

namespace BoardAtlas

/-- What reads formulas: of a text that is one the value, or why it has none. -/
class Calculator where
  evaluate? : String → Option (Except String Float)

/-- Puts a zero before every point that does not follow a digit. -/
def withZeros (afterDigit : Bool) : List Char → List Char
  | [] => []
  | c :: cs =>
    let rest := c :: withZeros c.isDigit cs
    if c = '.' ∧ ¬ afterDigit then '0' :: rest else rest

variable [Calculator]

/-- The value of a text: a plain number, or else a formula. The key names the field in errors. -/
def evaluateText (key text : String) : Except ManifestError Float :=
  let cs := Text.trim text.toList
  match readNumber? cs with
  | some x => .ok x
  | none =>
    match Calculator.evaluate? (String.ofList (withZeros false cs)) with
    | none => .error (.invalidFormula key text)
    | some v => v.mapError fun cause => .noValue key (.formula cause)

/-- The value of a numeric field. -/
def evaluateNumber (key : String) : Value → Except ManifestError Float
  | .num x => .ok x
  | .str s => evaluateText key s
  | v => .error (.noValue key (.notNumber v.kind))

/-- **The value of a coordinate pair.** A text is cut at its first comma. -/
def evaluatePair (key : String) (v : Value) : Except ManifestError (Float × Float) :=
  let bad : Except ManifestError (Float × Float) := .error (.noValue key (.notPair v.varText))
  let pair (x y : Value) : Except ManifestError (Float × Float) := do
    let x ← evaluateNumber key x
    let y ← evaluateNumber key y
    pure (x, y)
  match v with
  | .str s => match Text.cutText? ',' s with
    | some (x, y) => pair (.str x) (.str y)
    | none => bad
  | .list [x, y] => pair x y
  | .obj fields => match Dict.get? fields "x", Dict.get? fields "y" with
    | some x, some y => pair x y
    | _, _ => bad
  | _ => bad

end BoardAtlas
