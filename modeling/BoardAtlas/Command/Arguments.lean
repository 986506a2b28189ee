import BoardAtlas.Dict

/-!
# Arguments of the command line

The words of a command line go through levels: the program, its command, and for `list` what is listed.
Sources and switches may be given at every level; where two levels give the same one, the inner counts.

* `Setting`: everything that may be set;
* `Level`: the levels and what each accepts;
* `Given`: what one level has been given;
* `readWords`: words, from one level to the next;
* `Options`, **`Options.ofWords`**: what the program is to do.
-/

namespace BoardAtlas.Command

/-! ## Settings and levels -/

/-- Something that may be set on the command line. -/
inductive Setting where
  | res
  | boards
  | shapes
  | templates
  | presets
  | roles
  | flash
  | lenient
  | debug
  | full
  | output
  | help
  | version
  deriving DecidableEq, Repr

namespace Setting

/-- All settings. -/
def all : List Setting :=
  [res, boards, shapes, templates, presets, roles, flash, lenient, debug, full, output, help, version]

/-- The long name of a setting. -/
def longName : Setting → String
  | res => "res"
  | boards => "boards"
  | shapes => "shapes"
  | templates => "templates"
  | presets => "presets"
  | roles => "roles"
  | flash => "flash"
  | lenient => "lenient-aliases"
  | debug => "debug"
  | full => "full"
  | output => "output"
  | help => "help"
  | version => "version"

/-- The letter of a setting, if it has one. -/
def letter? : Setting → Option Char
  | debug => some 'd'
  | full => some 'f'
  | output => some 'o'
  | help => some 'h'
  | version => some 'V'
  | _ => none

/-- The setting has a value; any other is a switch. -/
def hasValue : Setting → Bool
  | res | boards | shapes | templates | presets | roles | flash | output => true
  | _ => false

/-- The setting may be given more than once. -/
def isRepeated (s : Setting) : Bool := s.hasValue && s ≠ .output

/-- The setting is accepted at every level. -/
def isGlobal : Setting → Bool
  | full | output | version => false
  | _ => true

end Setting

/-- What can be listed. -/
inductive ListTarget where
  | boards
  | templates
  | shapes
  | presets
  | roles
  | flash
  deriving DecidableEq, Repr

/-- What can be made of a board. -/
inductive Facet where
  | diagram
  | docs
  | variant
  deriving DecidableEq, Repr

/-- The name of a facet in files and output. -/
def Facet.name : Facet → String
  | .diagram => "diagram"
  | .docs => "docs"
  | .variant => "variant"

/-- A level of the command line. -/
inductive Level where
  | program
  | list
  | listed (target : ListTarget)
  | facets (facets : List Facet)
  deriving DecidableEq, Repr

namespace Level

/-- The commands of a level. -/
def commands : Level → List (String × Level)
  | program => [("list", list), ("draw", facets [.diagram]), ("write", facets [.docs]),
      ("variant", facets [.variant]), ("all", facets [.diagram, .docs, .variant])]
  | list => [("boards", listed .boards), ("templates", listed .templates),
      ("shapes", listed .shapes), ("presets", listed .presets), ("roles", listed .roles),
      ("flash", listed .flash)]
  | _ => []

/-- The level needs one of its commands. -/
def needsCommand (l : Level) : Bool := !l.commands.isEmpty

/-- The level takes the names of boards. -/
def takesNames : Level → Bool
  | facets _ => true
  | _ => false

/-- The level accepts a setting. -/
def accepts (l : Level) (s : Setting) : Bool :=
  s.isGlobal || match s with
    | .version => l = program
    | .full => l = listed .boards || l = listed .templates
    | .output => l.takesNames
    | _ => false

/-- The setting with a long name, if the level accepts it. -/
def long? (l : Level) (name : String) : Option Setting :=
  Setting.all.find? fun s => s.longName = name ∧ l.accepts s

/-- The setting with a letter, if the level accepts it. -/
def short? (l : Level) (c : Char) : Option Setting :=
  Setting.all.find? fun s => s.letter? = some c ∧ l.accepts s

end Level

/-! ## What is given -/

/-- Why reading the words ends early. -/
inductive Stop where
  | help
  | version
  | misuse
  deriving DecidableEq, Repr

/-- What a level has been given. -/
structure Given where
  values : List (Setting × String) := []
  switches : List Setting := []
  names : List String := []

namespace Given

/-- The values of a setting. -/
def valuesOf (g : Given) (s : Setting) : List String :=
  (g.values.filter fun v => v.1 = s).map Prod.snd

/-- Turns a switch on; asking for help or the version ends the reading. -/
def switch (g : Given) (s : Setting) : Except Stop Given :=
  match s with
  | .help => .error .help
  | .version => .error .version
  | _ =>
    if g.switches.contains s then .error .misuse
    else .ok { g with switches := g.switches ++ [s] }

/-- Gives a setting a value, which must not be empty. -/
def set (g : Given) (s : Setting) (value : String) : Except Stop Given :=
  if value = "" ∨ (!s.isRepeated ∧ g.valuesOf s ≠ []) then .error .misuse
  else .ok { g with values := g.values ++ [(s, value)] }

end Given

/-! ## Words -/

/-- What is given so far, and a setting whose value is the next word. -/
abbrev Progress : Type := Given × Option Setting

/-- A word that begins with two dashes, without them. -/
def longWord (l : Level) (g : Given) (body : List Char) : Except Stop Progress :=
  let name := body.takeWhile (· ≠ '=')
  let value := (body.dropWhile (· ≠ '=')).tail?.map String.ofList
  match l.long? (String.ofList name), value with
  | none, _ => .error .misuse
  | some s, some value =>
    if s.hasValue then (g.set s value).map fun g => (g, none) else .error .misuse
  | some s, none =>
    if s.hasValue then .ok (g, some s) else (g.switch s).map fun g => (g, none)

/-- The letters of a word that begins with one dash. A value may follow its letter at once, with or without
an equals sign. -/
def shortWord (l : Level) : Given → List Char → Except Stop Progress
  | g, [] => .ok (g, none)
  | g, c :: rest =>
    match l.short? c with
    | none => .error .misuse
    | some s =>
      if s.hasValue then
        match rest with
        | [] => .ok (g, some s)
        | '=' :: value => (g.set s (String.ofList value)).map fun g => (g, none)
        | value => (g.set s (String.ofList value)).map fun g => (g, none)
      else
        match g.switch s with
        | .ok g => shortWord l g rest
        | .error e => .error e

/-- Asking for help about commands, each a command of the one before. -/
def helpWords : Level → List String → Stop
  | _, [] => .help
  | l, word :: rest =>
    match l.commands.lookup word with
    | some inner => helpWords inner rest
    | none => if word = "help" ∧ l.needsCommand ∧ rest.isEmpty then .help else .misuse

/-- Words after two dashes are names of boards. -/
def nameWords (l : Level) (g : Given) (words : List String) : Except Stop Given :=
  if words.isEmpty then .ok g
  else if l.takesNames then .ok { g with names := g.names ++ words }
  else .error .misuse

/-- The level at the end of the words, and what the levels have been given, the innermost first. -/
structure Reading where
  level : Level
  given : List Given

/-- The end of the words: no setting waits for a value, and a command and names are there if needed. -/
def finish (l : Level) (outer : List Given) (g : Given) (waiting : Option Setting) :
    Except Stop Reading :=
  if waiting.isSome || l.needsCommand || (l.takesNames && g.names.isEmpty) then .error .misuse
  else .ok ⟨l, g :: outer⟩

/-- **Words, from one level to the next.** A word that begins with a dash is never a value. -/
def readWords (l : Level) (outer : List Given) (g : Given) (waiting : Option Setting) :
    List String → Except Stop Reading
  | [] => finish l outer g waiting
  | word :: rest =>
    match word.toList, waiting with
    | ['-', '-'], some _ => .error .misuse
    | ['-', '-'], none => do finish l outer (← nameWords l g rest) none
    | '-' :: _ :: _, some _ => .error .misuse
    | '-' :: '-' :: body, none => do
      let (g, waiting) ← longWord l g body
      readWords l outer g waiting rest
    | '-' :: c :: cs, none => do
      let (g, waiting) ← shortWord l g (c :: cs)
      readWords l outer g waiting rest
    | _, some s => do
      readWords l outer (← g.set s word) none rest
    | _, none =>
      match l.commands.lookup word with
      | some inner => readWords inner (g :: outer) {} none rest
      | none =>
        if l.takesNames then readWords l outer { g with names := g.names ++ [word] } none rest
        else if word = "help" ∧ l.needsCommand then .error (helpWords l rest)
        else .error .misuse

/-! ## Options -/

/-- Where manifests and tables come from. -/
structure Sources where
  roots : List String
  boards : List String
  shapes : List String
  templates : List String
  presets : List String
  roles : List String
  flash : List String

/-- What is to be done. -/
inductive Action where
  | list (target : ListTarget) (full : Bool)
  | make (facets : List Facet) (boards : List String) (output : Option String)

/-- What the program is to do, and with what. -/
structure Options where
  sources : Sources
  lenient : Bool
  action : Action

namespace Reading

/-- The values of a setting at the innermost level that gives it. -/
def valuesOf (r : Reading) (s : Setting) : List String :=
  ((r.given.map fun g => g.valuesOf s).find? fun values => values ≠ []).getD []

/-- A switch is on at some level. -/
def isOn (r : Reading) (s : Setting) : Bool := r.given.any fun g => g.switches.contains s

/-- The names of boards. -/
def names (r : Reading) : List String := r.given.flatMap Given.names

/-- The sources that are given. -/
def sources (r : Reading) : Sources where
  roots := r.valuesOf .res
  boards := r.valuesOf .boards
  shapes := r.valuesOf .shapes
  templates := r.valuesOf .templates
  presets := r.valuesOf .presets
  roles := r.valuesOf .roles
  flash := r.valuesOf .flash

/-- The action of the innermost level. -/
def action? (r : Reading) : Option Action :=
  match r.level with
  | .listed target => some (.list target (r.isOn .full))
  | .facets facets => some (.make facets r.names (r.valuesOf .output).head?)
  | _ => none

end Reading

/-- **What the words of a command line ask for.** -/
def Options.ofWords (words : List String) : Except Stop Options := do
  let r ← readWords .program [] {} none words
  match r.action? with
  | some action => pure ⟨r.sources, r.isOn .lenient, action⟩
  | none => throw .misuse

end BoardAtlas.Command
