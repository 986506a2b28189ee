import BoardAtlas.Json.Tree
import BoardAtlas.Number.Layout

/-!
# JSON text

* `quoted`: a text between quotes;
* `compactChars`, **`Json.compact`**: no blanks at all;
* **`Json.pretty`**: one member or item a line, two spaces a level.
-/

namespace BoardAtlas.Json

/-- A character inside quotes: quote, backslash and controls are escaped, all else stands for itself. -/
def quotedChar (c : Char) : List Char :=
  match c with
  | '"' => ['\\', '"']
  | '\\' => ['\\', '\\']
  | '\x08' => ['\\', 'b']
  | '\x0c' => ['\\', 'f']
  | '\n' => ['\\', 'n']
  | '\r' => ['\\', 'r']
  | '\t' => ['\\', 't']
  | c =>
    if c.toNat < 0x20 then
      ['\\', 'u', '0', '0', Nat.digitChar (c.toNat / 16), Nat.digitChar (c.toNat % 16)]
    else [c]

/-- A text between quotes. -/
def quoted (s : String) : List Char := '"' :: s.toList.flatMap quotedChar ++ ['"']

/-- A number that is not written as an integer; JSON has no text for NaN and the infinities. -/
def floatChars (x : Float) : List Char :=
  match Binary64.parts? x with
  | some _ => (Layout.json.text x).toList
  | none => "null".toList

/-- The parts with a separator between neighbours. -/
def separated (sep : List Char) : List (List Char) → List Char
  | [] => []
  | [p] => p
  | p :: q :: rest => p ++ sep ++ separated sep (q :: rest)

mutual

/-- A document without blanks. -/
def compactChars : Json → List Char
  | null => "null".toList
  | bool b => if b then "true".toList else "false".toList
  | int n => (toString n).toList
  | float x => floatChars x
  | str s => quoted s
  | arr items => '[' :: separated [','] (compactItems items) ++ [']']
  | obj fields => '\x7b' :: separated [','] (compactMembers fields) ++ ['\x7d']

/-- The items of a list without blanks. -/
def compactItems : List Json → List (List Char)
  | [] => []
  | v :: rest => compactChars v :: compactItems rest

/-- The members of an object without blanks. -/
def compactMembers : List (String × Json) → List (List Char)
  | [] => []
  | (k, v) :: rest => (quoted k ++ ':' :: compactChars v) :: compactMembers rest

end

/-- **The compact text of a document.** -/
def compact (v : Json) : String := String.ofList v.compactChars

/-- A new line at the given level. -/
def lineBreak (level : Nat) : List Char := '\n' :: List.replicate (2 * level) ' '

/-- A bracketed block with its parts on lines of their own. -/
def block (opening closing : Char) (level : Nat) (parts : List (List Char)) : List Char :=
  if parts.isEmpty then [opening, closing]
  else
    opening :: lineBreak (level + 1) ++ separated (',' :: lineBreak (level + 1)) parts ++
      lineBreak level ++ [closing]

mutual

/-- A document with indentation, starting at the given level. -/
def prettyChars (level : Nat) : Json → List Char
  | arr items => block '[' ']' level (prettyItems (level + 1) items)
  | obj fields => block '\x7b' '\x7d' level (prettyMembers (level + 1) fields)
  | null => "null".toList
  | bool b => if b then "true".toList else "false".toList
  | int n => (toString n).toList
  | float x => floatChars x
  | str s => quoted s

/-- The items of an indented list. -/
def prettyItems (level : Nat) : List Json → List (List Char)
  | [] => []
  | v :: rest => prettyChars level v :: prettyItems level rest

/-- The members of an indented object. -/
def prettyMembers (level : Nat) : List (String × Json) → List (List Char)
  | [] => []
  | (k, v) :: rest => (quoted k ++ ':' :: ' ' :: prettyChars level v) :: prettyMembers level rest

end

/-- **The indented text of a document.** -/
def pretty (v : Json) : String := String.ofList (v.prettyChars 0)

end BoardAtlas.Json
