import BoardAtlas.Library.FileTree
import BoardAtlas.Library.Loading
import BoardAtlas.Json.Reader
import BoardAtlas.Listing

/-!
# The store of manifests

A store knows folders to search and files to merge, those that override others first. What it has read
successfully it remembers until it is told to forget.

* `Store`, `Store.addRoot`, `Store.addOverrideRoot`, `Store.addFolder`, `Store.addTableFile`: where to look;
* `Store.find?`, `Store.readManifest`, `Store.readTable`, `Store.list`: reading from files;
* `Store.library`: what can be read, remembered answers first;
* `Store.remember`, `Store.forget`, `Store.forgetTable`, `Store.forgetAll`: the memory;
* **`Store.run`**: a computation over the library, with the store after it.
-/

namespace BoardAtlas

/-- The folder of base manifests inside a boards folder. -/
def baseFolder : String := "_base"

/-- The folder of a resource root that holds manifests of a kind. -/
def ManifestKind.folder : ManifestKind → String
  | .board | .boardBase => "boards"
  | .template => "templates"
  | .shape => "shapes"

/-- The file of a resource root that holds a table. -/
def TableKind.file : TableKind → String
  | .presets => "presets.json"
  | .roles => "roles.json"
  | .flash => "flash.json"

/-- Folders and files to read from, overriding ones first, and what has been read. -/
structure Store where
  boardFolders : List String := []
  templateFolders : List String := []
  shapeFolders : List String := []
  tableFiles : TableKind → List String := fun _ => []
  manifests : List ((ManifestKind × String) × Value) := []
  tables : TableKind → Option (Dict Value) := fun _ => none

namespace Store

/-! ## Where to look -/

/-- Forgets a table. -/
def forgetTable (s : Store) (kind : TableKind) : Store :=
  { s with tables := fun k => if k = kind then none else s.tables k }

/-- Puts a folder before the others; base manifests are in their boards folder. -/
def addFolder (s : Store) (kind : ManifestKind) (folder : String) : Store :=
  match kind with
  | .board | .boardBase => { s with boardFolders := folder :: s.boardFolders }
  | .template => { s with templateFolders := folder :: s.templateFolders }
  | .shape => { s with shapeFolders := folder :: s.shapeFolders }

/-- Puts a table file before the others; the table is read anew. -/
def addTableFile (s : Store) (kind : TableKind) (file : String) : Store :=
  forgetTable
    { s with tableFiles := fun k => if k = kind then file :: s.tableFiles k else s.tableFiles k } kind

/-- Puts a resource root after all others. Tables that have been read stay as they are. -/
def addRoot (s : Store) (root : String) : Store :=
  { s with
    boardFolders := s.boardFolders ++ [joinPath root ManifestKind.board.folder]
    templateFolders := s.templateFolders ++ [joinPath root ManifestKind.template.folder]
    shapeFolders := s.shapeFolders ++ [joinPath root ManifestKind.shape.folder]
    tableFiles := fun k => s.tableFiles k ++ [joinPath root k.file] }

/-- Puts a resource root before all others. -/
def addOverrideRoot (s : Store) (root : String) : Store :=
  let s := [ManifestKind.board, .template, .shape].foldl
    (fun s kind => s.addFolder kind (joinPath root kind.folder)) s
  [TableKind.presets, .roles, .flash].foldl
    (fun s kind => s.addTableFile kind (joinPath root kind.file)) s

/-- The store over resource roots, overriding ones first. -/
def ofRoots (roots : List String) : Store := roots.foldl addRoot {}

/-- The folders searched for a kind, overriding ones first. -/
def folders (s : Store) : ManifestKind → List String
  | .board => s.boardFolders
  | .boardBase => s.boardFolders.map fun folder => joinPath folder baseFolder
  | .template => s.templateFolders
  | .shape => s.shapeFolders

/-- Every folder and file that is read from. -/
def paths (s : Store) : List String :=
  s.boardFolders ++ s.templateFolders ++ s.shapeFolders ++
    [TableKind.presets, .roles, .flash].flatMap s.tableFiles

/-! ## Reading files -/

/-- The value in the JSON file at a path. -/
def readValue (t : FileTree) (path : String) : Except ManifestError Value := do
  let text ← (t.readText path).mapError fun fault => .unreadable path fault.message
  let json ← (Json.read text).mapError fun cause => .malformed path cause
  pure (Value.ofJson json)

/-- The path of a manifest: the first folder that holds its file. -/
def find? (s : Store) (t : FileTree) (kind : ManifestKind) (name : String) : Option String :=
  ((s.folders kind).map fun folder => joinPath folder (name ++ ".json")).find? t.isFile

/-- Reads a manifest from its file. -/
def readManifest (s : Store) (t : FileTree) (kind : ManifestKind) (name : String) :
    Except ManifestError Value :=
  match s.find? t kind name with
  | some path => readValue t path
  | none => .error (.notFound kind name)

/-- The entries of one table file. -/
def readEntries (t : FileTree) (kind : TableKind) (path : String) :
    Except ManifestError (Dict Value) := do
  match ← readValue t path with
  | .obj entries => pure entries
  | _ => throw (.tableNotObject kind path)

/-- Merges table files, each overriding the ones before it. -/
def mergeTables (t : FileTree) (kind : TableKind) :
    Dict Value → List String → Except ManifestError (Dict Value)
  | merged, [] => .ok merged
  | merged, path :: rest => do
    let entries ← readEntries t kind path
    mergeTables t kind (merged.extend entries) rest

/-- Reads a table from those of its files that are there, the overriding ones last. -/
def readTable (s : Store) (t : FileTree) (kind : TableKind) : Except ManifestError (Dict Value) :=
  mergeTables t kind [] ((s.tableFiles kind).reverse.filter t.isFile)

/-- The manifest name of an entry that is no folder, below a lead that ends in a slash or is empty. -/
def nameOfEntry (lead name : String) : List String :=
  if name.endsWith ".json" then [lead ++ (name.dropEnd ".json".length).toString] else []

mutual

/-- The manifest names in a folder entry with the given path. A folder whose path is refused is not known to
be one. -/
def namesIn (skipBases recursive : Bool) (path lead name : String) : Node → List String
  | .file _ => nameOfEntry lead name
  | .folder entries =>
    if (pathFault? path).isSome then nameOfEntry lead name
    else if recursive && !(skipBases && lead == "" && name == baseFolder) then
      namesBelow skipBases recursive path (lead ++ name ++ "/") entries
    else []

/-- The manifest names in the entries of the folder with the given path. -/
def namesBelow (skipBases recursive : Bool) (path lead : String) : List (String × Node) → List String
  | [] => []
  | (name, n) :: rest =>
    namesIn skipBases recursive (joinPath path name) lead name n ++ namesBelow skipBases recursive path lead rest

end

/-- The manifest names in one of the searched folders; a missing folder has none. -/
def namesOfFolder (t : FileTree) (kind : ManifestKind) (recursive : Bool) (folder : String) :
    Except ManifestError (List String) :=
  match t.entries folder with
  | .ok entries => .ok (namesBelow (kind == .board) recursive folder "" entries)
  | .error .missing => .ok []
  | .error fault => .error (.unreadable folder fault.message)

/-- All manifest names of a kind; with `recursive` also those in folders below, as `folder/name`. -/
def list (s : Store) (t : FileTree) (kind : ManifestKind) (recursive : Bool) :
    Except ManifestError (List String) := do
  let names ← (s.folders kind).mapM (namesOfFolder t kind recursive)
  pure (Listing.ascendingTexts names.flatten)

/-! ## Memory -/

/-- A manifest that has been read. -/
def remembered? (s : Store) (kind : ManifestKind) (name : String) : Option Value :=
  s.manifests.lookup (kind, name)

/-- What can be read while files do not change. -/
def library (s : Store) (t : FileTree) : Library where
  manifest? kind name := match s.remembered? kind name with
    | some v => .ok v
    | none => s.readManifest t kind name
  table? kind := match s.tables kind with
    | some entries => .ok entries
    | none => s.readTable t kind
  names? := s.list t

/-- Remembers something that has been read. -/
def remember (s : Store) : Loaded → Store
  | .manifest kind name v => { s with manifests := ((kind, name), v) :: s.manifests }
  | .table kind entries => { s with tables := fun k => if k = kind then some entries else s.tables k }

/-- Forgets a manifest. -/
def forget (s : Store) (kind : ManifestKind) (name : String) : Store :=
  { s with manifests := s.manifests.filter fun e => e.1 != (kind, name) }

/-- Forgets everything. -/
def forgetAll (s : Store) : Store := { s with manifests := [], tables := fun _ => none }

/-- **Runs a computation over the library**; whatever it has read is remembered, also when it fails. -/
def run {ε α : Type} (s : Store) (t : FileTree) (x : Library → Loading ε α) : Except ε α × Store :=
  let y := x (s.library t)
  (y.result, y.loaded.foldl remember s)

end Store

end BoardAtlas
