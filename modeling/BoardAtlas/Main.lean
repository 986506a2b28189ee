import BoardAtlas.Command.Run
import BoardAtlas.Formula.Reader

/-!
# The program

Takes a picture of the files that the command line names, runs the command on it, deeper and deeper until there is
an outcome, and carries out what the command has written.
-/

namespace BoardAtlas.Program

/-- Folders are looked into so deep. -/
def depthLimit : Nat := 64

/-- A tree with what is at a path, as far as it can be read. -/
def readInto : Nat → FileTree → String → IO FileTree
  | 0, t, _ => pure t
  | depth + 1, t, path => do
    try
      let place ← IO.FS.realPath path
      if ← place.isDir then
        let mut tree := t.placeFolder path
        for entry in ← place.readDir do
          tree ← readInto depth tree (joinPath path entry.fileName)
        pure tree
      else pure (t.place path (← IO.FS.readBinFile path))
    catch _ => pure t

/-- The tree with what is at the given paths. -/
def picture (paths : List String) : IO FileTree := do
  let here := (← IO.currentDir).toString
  let t := FileTree.placeFolder {} here
  let t := { t with here := (FileTree.steps here).filter (· ≠ "") }
  paths.foldlM (readInto depthLimit) t

/-- Writes the files that a command has changed. -/
def carryOut (before after : FileTree) (folder : Option String) : IO Unit := do
  if let some folder := folder then
    if (after.entries folder).toBool then IO.FS.createDirAll folder
  for (path, content) in FileTree.changes { before with here := [] } { after with here := [] } do
    IO.FS.writeBinFile ("/" ++ path) content

/-- The depths to which a command is followed, each twice as deep as the one before. -/
def depths : List Nat := (List.range 64).map pow2

open scoped BoardAtlas.Expr

/-- The outcome of a command at the first of these depths that is enough. -/
def outcome? (words : List String) (environment : Option String) (t : FileTree) : Option Command.Outcome :=
  depths.findSome? fun depth => Command.run depth words environment t

end BoardAtlas.Program

open BoardAtlas

/-- Runs the command line. -/
def main (words : List String) : IO UInt32 := do
  let environment ← IO.getEnv Command.rootsVariable
  let folder := Command.outputFolder? words
  let before ← Program.picture (Command.readPaths words environment ++ folder.toList)
  let some outcome := Program.outcome? words environment before
    | throw (IO.userError "shapes are nested without end")
  Program.carryOut before outcome.files folder
  outcome.output.forM IO.println
  outcome.errors.forM IO.eprintln
  pure outcome.code.toUInt32
