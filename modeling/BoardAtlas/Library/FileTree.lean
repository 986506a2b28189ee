import BoardAtlas.Dict
import BoardAtlas.Text.Cut

/-!
# Files and folders

A tree of folders and files in memory, with the rules of a file system for paths: a step leads through a
folder, `..` leads back, and a path that starts with a slash begins at the root. Names and paths have
limits, counted in bytes.

* `Node`, `FileTree`, `FileFault`: the tree, a tree with a working folder, and why a path leads nowhere;
* `joinPath`: a path below another one;
* `nameLimit`, `pathLimit`, `pathFault?`: paths that are refused before they are followed;
* `FileTree.locate`, `FileTree.isFile`, `FileTree.readText`, `FileTree.entries`: looking at paths;
* `FileTree.write`, `FileTree.createFolders`, `FileTree.place`, `FileTree.remove`: changed trees;
* `FileTree.files`, `FileTree.changes`: all files, and those that differ between two trees.
-/

namespace BoardAtlas

/-- A file with its bytes, or a folder with its entries. -/
inductive Node where
  | file (content : ByteArray)
  | folder (entries : List (String × Node))

/-- A tree and the folder that relative paths start from. -/
structure FileTree where
  root : Node := .folder []
  here : List String := []

/-- Why a path leads nowhere. -/
inductive FileFault where
  | missing
  | notFolder
  | isFolder
  | exists
  | tooLong
  | zeroCharacter
  | notText
  deriving DecidableEq, Repr

/-- The wording of a fault, with its system number. -/
def FileFault.message : FileFault → String
  | .missing => "No such file or directory (os error 2)"
  | .notFolder => "Not a directory (os error 20)"
  | .isFolder => "Is a directory (os error 21)"
  | .exists => "File exists (os error 17)"
  | .tooLong => "File name too long (os error 36)"
  | .zeroCharacter => "file name contained an unexpected NUL byte"
  | .notText => "stream did not contain valid UTF-8"

/-- A path below another one; an absolute path stands alone. -/
def joinPath (folder path : String) : String :=
  if path.startsWith "/" || folder == "" then path
  else if folder.endsWith "/" then folder ++ path
  else folder ++ "/" ++ path

/-- The bytes that one name in a folder may have. -/
def nameLimit : Nat := 255

/-- The bytes that a path may have. -/
def pathLimit : Nat := 4095

/-- Why a path is refused before any of its steps is taken. -/
def pathFault? (path : String) : Option FileFault :=
  if path.toList.contains '\x00' then some .zeroCharacter
  else if pathLimit < path.utf8ByteSize then some .tooLong
  else none

/-! ## Nodes -/

/-- The node below the names. -/
def Node.at? : Node → List String → Option Node
  | n, [] => some n
  | .folder entries, name :: rest => (Dict.get? entries name).bind fun n => n.at? rest
  | .file _, _ :: _ => none

/-- The tree with a node put below the names, making folders where nothing is. -/
def Node.put (new : Node) : List String → Node → Node
  | [], _ => new
  | name :: rest, .folder entries =>
    .folder (Dict.insert entries name
      (put new rest ((Dict.get? entries name).getD (.folder []))))
  | _ :: _, n => n

/-- The tree without the node below the names. -/
def Node.remove : List String → Node → Node
  | [], n => n
  | [name], .folder entries => .folder (Dict.erase entries name)
  | name :: rest, .folder entries =>
    match Dict.get? entries name with
    | some child => .folder (Dict.insert entries name (remove rest child))
    | none => .folder entries
  | _ :: _, n => n

mutual

/-- All files with their paths. -/
def Node.files (lead : String) : Node → List (String × ByteArray)
  | .file content => [(lead, content)]
  | .folder entries => filesOf lead entries

/-- All files below entries, with their paths. -/
def Node.filesOf (lead : String) : List (String × Node) → List (String × ByteArray)
  | [] => []
  | (name, n) :: rest => Node.files (joinPath lead name) n ++ Node.filesOf lead rest

end

/-! ## Paths -/

namespace FileTree

/-- The steps of a path. -/
def steps (path : String) : List String := Text.piecesOf '/' path

/-- Follows steps from the folder below the names, innermost name first. -/
def follow (root : Node) : List String → List String → Except FileFault (List String)
  | names, [] => .ok names
  | names, step :: rest =>
    match root.at? names.reverse with
    | some (.folder _) =>
      if step = "" ∨ step = "." then follow root names rest
      else if step = ".." then follow root names.tail rest
      else if nameLimit < step.utf8ByteSize then .error .tooLong
      else follow root (step :: names) rest
    | some (.file _) => .error .notFolder
    | none => .error .missing

/-- The folder that a path starts from. -/
def start (t : FileTree) (path : String) : List String := if path.startsWith "/" then [] else t.here

/-- The names from the root to where a path leads, whether or not something is there. -/
def resolve (t : FileTree) (path : String) : Except FileFault (List String) :=
  match pathFault? path with
  | some fault => .error fault
  | none =>
    if path = "" then .error .missing
    else (follow t.root (t.start path).reverse (steps path)).map List.reverse

/-- The node at a path. -/
def locate (t : FileTree) (path : String) : Except FileFault Node := do
  let names ← t.resolve path
  match t.root.at? names with
  | some n => pure n
  | none => throw .missing

/-- There is a file at the path. -/
def isFile (t : FileTree) (path : String) : Bool :=
  match t.locate path with
  | .ok (.file _) => true
  | _ => false

/-- The text of the file at a path. -/
def readText (t : FileTree) (path : String) : Except FileFault String := do
  match ← t.locate path with
  | .folder _ => throw .isFolder
  | .file content =>
    match String.fromUTF8? content with
    | some s => pure s
    | none => throw .notText

/-- The entries of the folder at a path. -/
def entries (t : FileTree) (path : String) : Except FileFault (List (String × Node)) := do
  match ← t.locate path with
  | .folder entries => pure entries
  | .file _ => throw .notFolder

/-- The tree after a file has been written; its folder must be there. -/
def write (t : FileTree) (path : String) (content : ByteArray) : Except FileFault FileTree := do
  let names ← t.resolve path
  match t.root.at? names with
  | some (.folder _) => throw .isFolder
  | some (.file _) => pure ()
  | none =>
    match t.root.at? names.dropLast with
    | some (.folder _) => pure ()
    | some (.file _) => throw .notFolder
    | none => throw .missing
  pure { t with root := Node.put (.file content) names t.root }

/-- The steps stay where they are, and at least one of them says so. -/
def stays (steps : List String) : Bool :=
  steps.contains "." && steps.all fun step => step == "" || step == "."

/-- Follows steps and makes a folder wherever nothing is. No folder is made for a name that only `.` follows:
that step can be taken in a folder which is there, but names none that could be made. -/
def makeFolders (here : List String) : Node → List String → List String → Except FileFault FileTree
  | root, _, [] => .ok ⟨root, here⟩
  | root, names, step :: rest =>
    if step = "" ∨ step = "." then makeFolders here root names rest
    else if step = ".." then makeFolders here root names.dropLast rest
    else if nameLimit < step.utf8ByteSize then .error .tooLong
    else
      let names := names ++ [step]
      match root.at? names with
      | some (.folder _) => makeFolders here root names rest
      | some (.file _) => .error (if rest.isEmpty then .exists else .notFolder)
      | none =>
        if stays rest then .error .missing
        else makeFolders here (Node.put (.folder []) names root) names rest

/-- The tree with the folder at a path and all folders on the way. -/
def createFolders (t : FileTree) (path : String) : Except FileFault FileTree :=
  match pathFault? path with
  | some fault => .error fault
  | none => makeFolders t.here t.root (t.start path) (steps path)

/-- The tree with a folder and the folders on the way, as far as nothing is against it. -/
def placeFolder (t : FileTree) (path : String) : FileTree :=
  (makeFolders t.here t.root (t.start path) ((steps path).filter (· ≠ "."))).toOption.getD t

/-- The tree with a file and the folders on the way, as far as nothing is against it. -/
def place (t : FileTree) (path : String) (content : ByteArray) : FileTree :=
  match t.resolve path with
  | .ok names => { t with root := Node.put (.file content) names t.root }
  | .error _ =>
    let t := t.placeFolder (Text.joined "/" (steps path).dropLast)
    (t.write path content).toOption.getD t

/-- The tree without what is at a path. -/
def remove (t : FileTree) (path : String) : FileTree :=
  match t.resolve path with
  | .ok names => { t with root := t.root.remove names }
  | .error _ => t

/-- The files below the working folder, by their paths from there. -/
def files (t : FileTree) : List (String × ByteArray) :=
  match t.root.at? t.here with
  | some n => n.files ""
  | none => []

/-- The files that are new or different in the second tree. -/
def changes (before after : FileTree) : List (String × ByteArray) :=
  let old := before.files
  after.files.filter fun (path, content) => old.lookup path != some content

end FileTree

end BoardAtlas
