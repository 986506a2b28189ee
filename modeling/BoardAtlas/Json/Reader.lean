import BoardAtlas.Json.Token

/-!
# Reading JSON documents

The tokens are read one by one onto a stack of open arrays and objects, so that nesting is bounded by the
height of the stack.

* `Open`, `State`, `State.step`: the stack and what may come next;
* **`Json.read`**: the document of a text.
-/

namespace BoardAtlas.Json

/-- An array or object that is not closed yet; items and members are kept last first. -/
inductive Open where
  | array (items : List Json)
  | object (members : List (String × Json))
  | member (members : List (String × Json)) (key : String)

/-- What the next token may be. -/
inductive Expected where
  | value
  | itemOrEnd
  | keyOrEnd
  | key
  | colon
  | commaOrEnd
  | nothing (document : Json)

/-- Open containers, innermost first, and what may come next. -/
structure State where
  stack : List Open
  expected : Expected

/-- At most so many containers may be open at once. -/
def depthLimit : Nat := 127

/-- A finished value goes into the innermost container, or is the document. -/
def State.finish (v : Json) : List Open → Option State
  | [] => some ⟨[], .nothing v⟩
  | .array items :: stack => some ⟨.array (v :: items) :: stack, .commaOrEnd⟩
  | .member members key :: stack => some ⟨.object ((key, v) :: members) :: stack, .commaOrEnd⟩
  | .object _ :: _ => none

/-- A new container. -/
def State.enter (container : Open) (expected : Expected) (stack : List Open) : Option State :=
  if stack.length < depthLimit then some ⟨container :: stack, expected⟩ else none

/-- A value where one is allowed. -/
def State.value (stack : List Open) : Token → Option State
  | .openObject => State.enter (.object []) .keyOrEnd stack
  | .openArray => State.enter (.array []) .itemOrEnd stack
  | .text s => State.finish (str s) stack
  | .leaf v => State.finish v stack
  | _ => none

/-- A key where one is allowed. -/
def State.key (stack : List Open) : Token → Option State
  | .text k => match stack with
    | .object members :: rest => some ⟨.member members k :: rest, .colon⟩
    | _ => none
  | _ => none

/-- The end of the innermost container; of members with one key the last wins at the first place. -/
def State.close (stack : List Open) : Token → Option State
  | .closeArray => match stack with
    | .array items :: rest => State.finish (arr items.reverse) rest
    | _ => none
  | .closeObject => match stack with
    | .object members :: rest => State.finish (obj (Dict.ofList members.reverse)) rest
    | _ => none
  | _ => none

/-- One token further. -/
def State.step (s : State) (t : Token) : Option State :=
  match s.expected with
  | .value => State.value s.stack t
  | .itemOrEnd => (State.close s.stack t).orElse fun _ => State.value s.stack t
  | .keyOrEnd => (State.close s.stack t).orElse fun _ => State.key s.stack t
  | .key => State.key s.stack t
  | .colon => match t with
    | .colon => some ⟨s.stack, .value⟩
    | _ => none
  | .commaOrEnd => match t, s.stack with
    | .comma, .array _ :: _ => some ⟨s.stack, .value⟩
    | .comma, .object _ :: _ => some ⟨s.stack, .key⟩
    | t, _ => State.close s.stack t
  | .nothing _ => none

/-- The state before the first token. -/
def State.start : State := ⟨[], .value⟩

/-- **The document of a text**: its tokens must form exactly one value. -/
def read (text : String) : Except String Json :=
  match tokens? text.toList with
  | none => .error "a part of the text is no JSON token"
  | some tokens =>
    match tokens.foldlM State.step State.start with
    | some ⟨_, .nothing v⟩ => .ok v
    | some _ => .error "the text ends inside a value"
    | none => .error "a token stands where none of its kind may stand"

end BoardAtlas.Json
