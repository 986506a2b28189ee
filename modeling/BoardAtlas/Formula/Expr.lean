import BoardAtlas.Number.Elementary

/-!
# Formulas

* `Expr`, `Expr.Op`: formulas over doubles;
* `Expr.Fault`, `Expr.Fault.message`: why a formula has no value;
* `constant?`, `callBuiltin`: the names and functions known to every formula;
* **`Expr.value`**: the value of a formula; operands from left to right, the first fault wins.
-/

namespace BoardAtlas

/-- A binary operation. -/
inductive Expr.Op where
  | add
  | sub
  | mul
  | div
  | rem
  | pow
  deriving DecidableEq, Repr

/-- A formula. -/
inductive Expr where
  | num (x : Float)
  | name (s : String)
  | neg (e : Expr)
  | pos (e : Expr)
  | binary (op : Expr.Op) (left right : Expr)
  | call (function : String) (arguments : List Expr)

namespace Expr

/-- Why a formula has no value. -/
inductive Fault where
  | unknownName (s : String)
  | unknownFunction (s : String)
  | arity (function : String) (expected : Nat)
  deriving DecidableEq, Repr

/-- The message of a fault. -/
def Fault.message : Fault → String
  | .unknownName s => "Evaluation error: unknown variable `" ++ s ++ "`."
  | .unknownFunction s => "Evaluation error: function `" ++ s ++ "`: Unknown function"
  | .arity s expected =>
    "Evaluation error: function `" ++ s ++ "`: Expected " ++ toString expected ++ " arguments"

/-- The result of a binary operation. -/
def Op.apply : Op → Float → Float → Float
  | .add, x, y => x + y
  | .sub, x, y => x - y
  | .mul, x, y => x * y
  | .div, x, y => x / y
  | .rem, x, y => Binary64.remainder x y
  | .pow, x, y => x ^ y

/-- The value of a known name. -/
def constant? : String → Option Float
  | "pi" => some (Float.ofBits 0x400921FB54442D18)
  | "e" => some (Float.ofBits 0x4005BF0A8B145769)
  | _ => none

/-- One with the sign of the number, a zero counting by its sign. -/
def signum (x : Float) : Float :=
  if x.isNaN then x else if x.toBits ≥ 0x8000000000000000 then -1 else 1

/-- The functions of one argument. -/
def unary? : String → Option (Float → Float)
  | "sqrt" => some Float.sqrt
  | "exp" => some Float.exp
  | "ln" => some Float.log
  | "abs" => some Float.abs
  | "sin" => some Float.sin
  | "cos" => some Float.cos
  | "tan" => some Float.tan
  | "asin" => some Float.asin
  | "acos" => some Float.acos
  | "atan" => some Float.atan
  | "sinh" => some Float.sinh
  | "cosh" => some Float.cosh
  | "tanh" => some Float.tanh
  | "asinh" => some Binary64.areaSine
  | "acosh" => some Binary64.areaCosine
  | "atanh" => some Binary64.areaTangent
  | "floor" => some Float.floor
  | "ceil" => some Float.ceil
  | "round" => some Float.round
  | "signum" => some signum
  | _ => none

/-- The result of a function on its arguments. -/
def callBuiltin (function : String) (arguments : List Float) : Except Fault Float :=
  match function, arguments with
  | "max", xs => .ok (xs.foldl Binary64.larger (-1.0 / 0.0))
  | "min", xs => .ok (xs.foldl Binary64.smaller (1.0 / 0.0))
  | "atan2", [y, x] => .ok (Float.atan2 y x)
  | "atan2", _ => .error (.arity "atan2" 2)
  | f, xs =>
    match unary? f, xs with
    | some g, [x] => .ok (g x)
    | some _, _ => .error (.arity f 1)
    | none, _ => .error (.unknownFunction f)

mutual

/-- **The value of a formula.** -/
def value : Expr → Except Fault Float
  | num x => .ok x
  | name s => match constant? s with
    | some x => .ok x
    | none => .error (.unknownName s)
  | neg e => (value e).map fun x => -x
  | pos e => value e
  | binary op left right => do
    let x ← value left
    let y ← value right
    pure (op.apply x y)
  | call function arguments => do
    let xs ← values arguments
    callBuiltin function xs

/-- The values of arguments, in order. -/
def values : List Expr → Except Fault (List Float)
  | [] => .ok []
  | e :: rest => do
    let x ← value e
    let xs ← values rest
    pure (x :: xs)

end

end Expr

end BoardAtlas
