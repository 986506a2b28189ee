import BoardAtlas.Command.Arguments
import BoardAtlas.Board.Resolver
import BoardAtlas.Library.Store

/-!
# Running a command

A command looks at a tree of files and gives what it writes to the terminal, an exit code and the tree
afterwards. It is followed to a depth of nested includes, and has no outcome where that is not enough.

* `CommandError`, `CommandError.code`: what ends a command;
* `Sources.store`: the store of the given sources;
* `listing`: the lines of a list;
* `renderFacets`, `Batch`, `batchOf`: the facets of many boards;
* `Batch.files`, `writeFiles`: facets as files;
* `Outcome`, **`run`**: a whole command, followed to a depth.
-/

namespace BoardAtlas.Command

variable [Calculator]

/-! ## Errors -/

/-- What ends a command. -/
inductive CommandError where
  | manifest (cause : ManifestError)
  | board (cause : BoardError)
  | creating (folder : String) (fault : FileFault)
  | writing (path : String) (fault : FileFault)
  /-- So many boards have failed, the first of them for the given cause. -/
  | failed (count : Nat) (first : BoardError)

namespace CommandError

/-- What is told of an error that ends a command. -/
def message : CommandError → String
  | manifest cause => cause.message
  | board cause => cause.message
  | creating folder fault => "creating " ++ folder ++ ": " ++ fault.message
  | writing path fault => "writing " ++ path ++ ": " ++ fault.message
  | failed count first => toString count ++ " board(s) failed; first: " ++ first.message

/-- The input is at fault. -/
def isInput : CommandError → Bool
  | manifest cause => cause.isInput
  | board cause | failed _ cause => cause.isInput
  | creating .. | writing .. => false

/-- The exit code: 2 if the input is at fault, else 3. -/
def code (e : CommandError) : Nat := if e.isInput then 2 else 3

end CommandError

/-- Words that are no command line end with this code. -/
def misuseCode : Nat := 1

/-! ## Sources -/

/-- The resource roots: those given, or else those of the environment, or else the working folder. -/
def Sources.rootsOr (s : Sources) (environment : Option String) : List String :=
  if s.roots ≠ [] then s.roots
  else match environment with
    | some paths => Text.piecesOf ':' paths
    | none => ["."]

/-- The store of the given sources: folders given first come first, and so do files given last. -/
def Sources.store (s : Sources) (environment : Option String) : Store :=
  let store := Store.ofRoots (s.rootsOr environment)
  let store := [(ManifestKind.board, s.boards), (.shape, s.shapes), (.template, s.templates)].foldl
    (fun store (kind, folders) => folders.reverse.foldl (fun store f => store.addFolder kind f) store)
    store
  [(TableKind.presets, s.presets), (.roles, s.roles), (.flash, s.flash)].foldl
    (fun store (kind, files) => files.foldl (fun store f => store.addTableFile kind f) store) store

/-! ## Lists -/

/-- Lines that are written until an error ends them. -/
structure Lines where
  lines : List String
  error? : Option CommandError := none

/-- A line before others. -/
def Lines.cons (line : String) (rest : Lines) : Lines := { rest with lines := line :: rest.lines }

/-- An entry of a list. -/
def entryLine (s : String) : String := " - " ++ s

/-- One line about a board. -/
def boardSummary (name : String) (b : Board) : String :=
  let pins := (b.pcb.map fun p => p.pinout.length).getD 0
  let connectivity :=
    if b.connectivity.isEmpty then ""
    else ", " ++ Text.upperText (Text.joined ", " b.connectivity)
  name ++ ": " ++ b.name ++ " / " ++ b.vendor ++ ", CPU " ++ Text.upperText b.build.mcu ++ " " ++
    b.clockText ++ ", Flash " ++ b.flashText ++ ", RAM " ++ b.ramText ++ ", " ++ toString pins ++
    " pins" ++ connectivity

/-- The entry of a board in the long list; one that does not resolve has its name alone. -/
def boardEntry (r : Resolver) (depth : Nat) (name : String) : Option String :=
  match (r.resolve depth name).result with
  | .ok b => some (boardSummary name b)
  | .error (.failed _) => some name
  | .error .unfinished => none

/-- One line about a template. -/
def templateSummary (name : String) (t : Template) : String :=
  name ++ ": " ++ t.title ++ " (" ++ Layout.plain.text t.width ++ "x" ++ Layout.plain.text t.height ++
    " mm, " ++ toString (t.pads.length + t.testPads.length) ++ " pads)"

/-- The lines of the long list of templates, up to one that cannot be read. -/
def templateLines (r : Resolver) : List String → Lines
  | [] => ⟨[], none⟩
  | name :: rest =>
    match (r.template name).result with
    | .ok t => Lines.cons (entryLine (templateSummary name t)) (templateLines r rest)
    | .error e => ⟨[], some (.manifest e)⟩

/-- The lines for the names of a kind. -/
def nameLines (r : Resolver) (kind : ManifestKind) (recursive : Bool)
    (lines : List String → Option Lines) : Option Lines :=
  match r.library.names? kind recursive with
  | .ok names => lines names
  | .error e => some ⟨[], some (.manifest e)⟩

/-- A line for each entry. -/
def plainLines (entries : List String) : Lines := ⟨entries.map entryLine, none⟩

/-- The lines of the long list of boards. -/
def boardLines (r : Resolver) (depth : Nat) (names : List String) : Option Lines :=
  (names.mapM (boardEntry r depth)).map plainLines

/-- The line of a flash region: its title, or the title in its entry. -/
def flashEntry (name : String) (v : Value) : String :=
  name ++ ": " ++ ((v.get? "title").getD v).varText

/-- The heading of a list. -/
def ListTarget.heading : ListTarget → String
  | .boards => "Boards:"
  | .templates => "Templates:"
  | .shapes => "Shapes:"
  | .presets => "Presets:"
  | .roles => "Roles:"
  | .flash => "Flash regions:"

/-- The entries of a list. -/
def entries (r : Resolver) (depth : Nat) (full : Bool) : ListTarget → Option Lines
  | .boards =>
    nameLines r .board false fun names => if full then boardLines r depth names else some (plainLines names)
  | .templates =>
    nameLines r .template false fun names => some (if full then templateLines r names else plainLines names)
  | .shapes => nameLines r .shape true fun names => some (plainLines names)
  | .presets => some (plainLines r.tables.presets.keys)
  | .roles => some (plainLines (r.tables.roles.roles.map fun role =>
      role.roleType.name ++ ": " ++ role.title ++ " (" ++ role.color ++ ")"))
  | .flash => some (plainLines (r.tables.flashTitles.map fun (name, v) => flashEntry name v))

/-- The lines of a list. -/
def listing (r : Resolver) (depth : Nat) (target : ListTarget) (full : Bool) : Option Lines :=
  (entries r depth full target).map (Lines.cons target.heading)

/-! ## Facets -/

/-- A facet of a resolved board. -/
def facetOf (r : Resolver) (b : Board) : Facet → Except BoardError Json
  | .diagram => .ok (r.draw b).toJson
  | .docs => .ok (r.document b).toJson
  | .variant => (r.generate b).map VariantFacts.toJson

/-- Facets with the diagram first, if it is one of them. -/
def diagramFirst (facets : List Facet) : List Facet :=
  if .diagram ∈ facets then .diagram :: facets.filter (· ≠ .diagram) else facets

/-- All facets that are asked for, or none of them. -/
def renderFacets (r : Resolver) (facets : List Facet) (b : Board) : Except BoardError (Dict Json) :=
  (diagramFirst facets).mapM fun facet => (facetOf r b facet).map fun v => (facet.name, v)

/-- The boards whose facets are made, and the failures: first those of resolving, then those of the
facets. -/
structure Batch where
  made : Dict (Dict Json)
  failures : List BoardFailure

/-- Adds the facets of a board. -/
def Batch.add (batch : Batch) (id : String) : Except BoardError (Dict Json) → Batch
  | .ok facets => { batch with made := batch.made ++ [(id, facets)] }
  | .error e => { batch with failures := batch.failures ++ [⟨id, e⟩] }

/-- The facets of boards. -/
def batchOf (r : Resolver) (facets : List Facet) (report : BatchReport) : Batch :=
  report.boards.foldl (fun batch b => batch.add b.id (renderFacets r facets b))
    ⟨[], report.failures⟩

/-- The error of a batch with failures. -/
def Batch.error? (batch : Batch) : Option CommandError :=
  batch.failures.head?.map fun first => .failed batch.failures.length first.error

/-- The lines about the failures of a batch. -/
def Batch.failureLines (batch : Batch) : List String :=
  batch.failures.map fun f => f.board ++ ": " ++ f.error.message

/-- The boards of a batch with their facets as one document. -/
def Batch.toJson (batch : Batch) : Json := Json.members Json.obj batch.made

/-! ## Files -/

/-- The file of a facet. -/
def facetPath (folder id facet : String) : String := joinPath folder (id ++ "." ++ facet ++ ".json")

/-- The files of a batch and what is in them. -/
def Batch.files (batch : Batch) (folder : String) : List (String × Json) :=
  batch.made.flatMap fun (id, facets) => facets.map fun (facet, v) => (facetPath folder id facet, v)

/-- Writes documents to files, up to one that cannot be written. -/
def writeFiles : FileTree → List (String × Json) → FileTree × Option CommandError
  | t, [] => (t, none)
  | t, (path, v) :: rest =>
    match t.write path (v.pretty ++ "\n").toUTF8 with
    | .ok t => writeFiles t rest
    | .error fault => (t, some (.writing path fault))

/-! ## Commands -/

/-- What a command does: its exit code, what it writes to the terminal, and the files afterwards. -/
structure Outcome where
  code : Nat
  output : List String
  errors : List String
  files : FileTree

namespace Outcome

/-- The text of lines. -/
def textOf (lines : List String) : String := String.join (lines.map fun line => line ++ "\n")

/-- The outcome of a command, with the error that ended it. -/
def ofError? (output errors : List String) (files : FileTree) : Option CommandError → Outcome
  | none => ⟨0, output, errors, files⟩
  | some e => ⟨e.code, output, errors ++ ["Error: " ++ e.message], files⟩

end Outcome

/-- The report of names, if following them so deep is enough. -/
def reportOf? (r : Resolver) (depth : Nat) (names : List String) : Option BatchReport :=
  (r.resolveAll depth names).result.toOption

/-- Writes the facets of a batch to the terminal. -/
def printBatch (t : FileTree) (batch : Batch) : Outcome :=
  Outcome.ofError? [batch.toJson.pretty] batch.failureLines t batch.error?

/-- Writes the facets of a batch to files in a folder. A file that cannot be written ends the command before its
failures are told. -/
def writeBatch (t : FileTree) (batch : Batch) (folder : String) : Outcome :=
  match writeFiles t (batch.files folder) with
  | (t, some e) => Outcome.ofError? [] [] t (some e)
  | (t, none) => Outcome.ofError? [] batch.failureLines t batch.error?

/-- Makes facets of boards and writes them to the terminal. -/
def printBoards (r : Resolver) (depth : Nat) (t : FileTree) (facets : List Facet) (names : List String) :
    Option Outcome :=
  (reportOf? r depth names).map fun report => printBatch t (batchOf r facets report)

/-- Makes facets of boards and writes them to files in a folder. -/
def writeBoards (r : Resolver) (depth : Nat) (t : FileTree) (facets : List Facet) (names : List String)
    (folder : String) : Option Outcome :=
  (reportOf? r depth names).map fun report => writeBatch t (batchOf r facets report) folder

/-- Writes the lines of a list. -/
def printList (r : Resolver) (depth : Nat) (t : FileTree) (target : ListTarget) (full : Bool) :
    Option Outcome :=
  (listing r depth target full).map fun lines => Outcome.ofError? lines.lines [] t lines.error?

/-- Carries out an action; what can be read depends on the files, to which a folder may be added first. -/
def perform (resolver : FileTree → Resolver) (depth : Nat) (t : FileTree) : Action → Option Outcome
  | .list target full => printList (resolver t) depth t target full
  | .make facets names none => printBoards (resolver t) depth t facets names
  | .make facets names (some folder) =>
    match t.createFolders folder with
    | .ok t => writeBoards (resolver t) depth t facets names folder
    | .error fault => some (Outcome.ofError? [] [] t (some (.creating folder fault)))

/-- Does what is asked for: reads the tables, then carries out the action. -/
def runOptions (depth : Nat) (o : Options) (environment : Option String) (t : FileTree) : Option Outcome :=
  let store := o.sources.store environment
  match store.run t Tables.load with
  | (.ok tables, store) => perform (fun t => ⟨store.library t, tables, o.lenient⟩) depth t o.action
  | (.error e, _) => some (Outcome.ofError? [] [] t (some (.board e)))

/-- How the program is used. -/
def usageLines : List String :=
  ["Usage: boardatlas [OPTIONS] <COMMAND>", "",
    "Commands: list, draw, write, variant, all",
    "Options: --res, --boards, --shapes, --templates, --presets, --roles, --flash,",
    "  --lenient-aliases, --debug, --help, --version"]

/-- **A whole command**, from its words, the resource roots of the environment and the files. -/
def run (depth : Nat) (words : List String) (environment : Option String) (t : FileTree) : Option Outcome :=
  match Options.ofWords words with
  | .error .help => some ⟨0, usageLines, [], t⟩
  | .error .version => some ⟨0, ["boardatlas 0.1.0"], [], t⟩
  | .error .misuse => some ⟨misuseCode, [], usageLines, t⟩
  | .ok o => runOptions depth o environment t

/-! ## What a command line touches -/

/-- The environment variable with the resource roots, separated by colons. -/
def rootsVariable : String := "BOARDGEN_RES"

/-- The folders and files that a command line reads from. -/
def readPaths (words : List String) (environment : Option String) : List String :=
  match Options.ofWords words with
  | .ok o => (o.sources.store environment).paths
  | .error _ => []

/-- The folder that a command line writes to. -/
def outputFolder? (words : List String) : Option String :=
  match Options.ofWords words with
  | .ok ⟨_, _, .make _ _ folder⟩ => folder
  | _ => none

end BoardAtlas.Command
