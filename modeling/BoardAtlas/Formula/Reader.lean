import BoardAtlas.Formula.Expr
import BoardAtlas.Formula.Field

/-!
# Reading formulas

Tokens are read from left to right onto two stacks, finished operands and operators that still wait for
one. An operator that binds at least as tightly as the next one is applied first; powers group to the
right, signs bind between powers and products, and nothing stands behind its operand alone.

* `Token`, `tokens?`: numbers, names, openings of calls, operators and brackets;
* `Waiting`, `State`, `State.step`: the stacks;
* **`Expr.read?`**: the formula of a text;
* `Expr.calculator`: the reader as a calculator.
-/

namespace BoardAtlas.Formula

/-- A token; `call` is a name with its opening bracket. -/
inductive Token where
  | num (x : Float)
  | name (s : String)
  | call (function : String)
  | op (op : Expr.Op)
  | opening
  | closing
  | comma

/-! ## Tokens -/

/-- The blanks of formulas. -/
def isSpace (c : Char) : Bool := c = ' ' || c = '\t' || c = '\n' || c = '\r'

/-- A character that may start a name. -/
def isNameStart (c : Char) : Bool := c.isAlpha || c = '_'

/-- A character that may continue a name. -/
def isNamePart (c : Char) : Bool := c.isAlphanum || c = '_'

/-- Digits with an optional fraction, whose digits may be missing, and what follows them. -/
def mantissa (cs : List Char) : List Char × List Char × List Char :=
  let (whole, rest) := digitsOf cs
  match rest with
  | '.' :: more =>
    let (fraction, tail) := digitsOf more
    (whole, fraction, tail)
  | _ => (whole, [], rest)

/-- A number at the front; an `e` right after the digits must begin an exponent. -/
def number? (cs : List Char) : Option (Float × List Char) :=
  let (whole, fraction, rest) := mantissa cs
  let read (down : Bool) (power tail : List Char) : Float × List Char :=
    let n : Int := digitsValue 10 power
    (ofDecimal false (digitsValue 10 (whole ++ fraction))
      ((if down then -n else n) - fraction.length), tail)
  match rest with
  | c :: more =>
    if c = 'e' ∨ c = 'E' then
      let (down, tail) := signOf more
      let (power, tail) := digitsOf tail
      if power = [] then none else some (read down power tail)
    else some (read false [] rest)
  | [] => some (read false [] [])

/-- The operator that a character stands for. -/
def operator? : Char → Option Token
  | '+' => some (.op .add)
  | '-' => some (.op .sub)
  | '*' => some (.op .mul)
  | '/' => some (.op .div)
  | '%' => some (.op .rem)
  | '^' => some (.op .pow)
  | '(' => some .opening
  | ')' => some .closing
  | ',' => some .comma
  | _ => none

/-- The token at the front, with what follows it. -/
def token? : List Char → Option (Token × List Char)
  | [] => none
  | c :: cs =>
    if c.isDigit then (number? (c :: cs)).map fun (x, rest) => (.num x, rest)
    else if isNameStart c then
      let word := String.ofList (c :: cs.takeWhile isNamePart)
      let rest := cs.dropWhile isNamePart
      match rest.dropWhile isSpace with
      | '(' :: more => some (.call word, more)
      | _ => some (.name word, rest)
    else (operator? c).map fun t => (t, cs)

/-- The tokens of a text; the counter bounds their number and that of blanks. -/
def tokensWithin? : Nat → List Char → Option (List Token)
  | _, [] => some []
  | 0, _ :: _ => none
  | n + 1, c :: cs =>
    if isSpace c then tokensWithin? n cs
    else (token? (c :: cs)).bind fun (t, rest) => (tokensWithin? n rest).map (t :: ·)

/-- The tokens of a text, `none` if a part of it is none. -/
def tokens? (cs : List Char) : Option (List Token) := tokensWithin? cs.length cs

/-! ## The two stacks -/

/-- An operator that waits for its last operand, or an open bracket. A call keeps the arguments read so
far, last first. -/
inductive Waiting where
  | sign (negative : Bool)
  | binary (op : Expr.Op)
  | bracket
  | call (function : String) (arguments : List Expr)

/-- How tightly a binary operator binds. -/
def strength : Expr.Op → Nat
  | .add | .sub => 1
  | .mul | .div | .rem => 2
  | .pow => 4

/-- How tightly a waiting operator binds; brackets hold back everything. -/
def Waiting.strength : Waiting → Nat
  | .sign _ => 3
  | .binary op => Formula.strength op
  | .bracket | .call .. => 0

/-- Finished operands, operators waiting, and whether an operand must come next. -/
structure State where
  operands : List Expr
  waiting : List Waiting
  wantsOperand : Bool

/-- Applies a waiting operator to the last operands. -/
def Waiting.perform? : Waiting → List Expr → Option (List Expr)
  | .sign negative, e :: es => some ((if negative then .neg e else .pos e) :: es)
  | .binary op, right :: left :: es => some (.binary op left right :: es)
  | _, _ => none

/-- Applies the waiting operators that bind at least as tightly as `level`, down to a bracket. -/
def reduce (level : Nat) : List Waiting → List Expr → Option (List Waiting × List Expr)
  | [], es => some ([], es)
  | w :: ws, es =>
    if w.strength ≠ 0 ∧ level ≤ w.strength then (w.perform? es).bind (reduce level ws)
    else some (w :: ws, es)

/-- A token where an operand must begin. -/
def State.operand (s : State) : Token → Option State
  | .num x => some ⟨.num x :: s.operands, s.waiting, false⟩
  | .name n => some ⟨.name n :: s.operands, s.waiting, false⟩
  | .call f => some ⟨s.operands, .call f [] :: s.waiting, true⟩
  | .opening => some ⟨s.operands, .bracket :: s.waiting, true⟩
  | .op .add => some ⟨s.operands, .sign false :: s.waiting, true⟩
  | .op .sub => some ⟨s.operands, .sign true :: s.waiting, true⟩
  | _ => none

/-- A token after an operand. -/
def State.operator (s : State) : Token → Option State
  | .op op =>
    let level := if op = .pow then strength op + 1 else strength op
    (reduce level s.waiting s.operands).map fun (ws, es) => ⟨es, .binary op :: ws, true⟩
  | .closing =>
    (reduce 1 s.waiting s.operands).bind fun
      | (.bracket :: ws, es) => some ⟨es, ws, false⟩
      | (.call f arguments :: ws, e :: es) =>
        some ⟨.call f (e :: arguments).reverse :: es, ws, false⟩
      | _ => none
  | .comma =>
    (reduce 1 s.waiting s.operands).bind fun
      | (.call f arguments :: ws, e :: es) => some ⟨es, .call f (e :: arguments) :: ws, true⟩
      | _ => none
  | _ => none

/-- One token further. -/
def State.step (s : State) (t : Token) : Option State :=
  if s.wantsOperand then s.operand t else s.operator t

/-- The formula of a state in which every operator has its operands. -/
def State.result? (s : State) : Option Expr :=
  if s.wantsOperand then none
  else match reduce 1 s.waiting s.operands with
    | some ([], [e]) => some e
    | _ => none

/-- The state before the first token. -/
def State.start : State := ⟨[], [], true⟩

end BoardAtlas.Formula

namespace BoardAtlas.Expr

open Formula

/-- **The formula of a text**, `none` if it is outside the grammar. -/
def read? (cs : List Char) : Option Expr :=
  ((tokens? cs).bind fun tokens => tokens.foldlM State.step State.start).bind State.result?

/-- The calculator of these formulas, for those who open their namespace. -/
scoped instance calculator : Calculator where
  evaluate? text := (read? text.toList).map fun e => e.value.mapError (·.message)

end BoardAtlas.Expr
