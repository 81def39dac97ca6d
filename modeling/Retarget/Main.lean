import Retarget.Command.Run

/-!
# The command

Reads what a run may need from the file system into a file tree, runs the command on it, and carries
out what it says.
-/

namespace Retarget.Main

/-- The place of an absolute path. -/
def placeOf (path : String) : Place := (WrittenPath.pieces path).filter fun p => !p.isEmpty

/-- A path in a directory. -/
def join (directory path : String) : String :=
  if WrittenPath.isAbsolute path then path else directory ++ "/" ++ path

/-- The paths on the way to a path, and the path itself. -/
def stations (path : String) : List String :=
  let pieces := WrittenPath.pieces path
  (List.range pieces.length).map fun n => "/".intercalate (pieces.take (n + 1))

/-- Add what stands at a path to a tree. -/
def addPath (tree : FileTree) (path : String) : IO FileTree := do
  try
    let real ← IO.FS.realPath (if path.isEmpty then "/" else path)
    let place := placeOf real.toString
    if ← real.isDir then
      return { tree with directories := place :: tree.directories }
    else if (tree.file? place).isSome then
      return tree
    else
      let bytes ← IO.FS.readBinFile real
      return { tree with files := (place, String.fromUTF8? bytes) :: tree.files }
  catch _ => return tree

/-- Add a path and all directories on the way to it. -/
def addAll (tree : FileTree) (path : String) : IO FileTree := (stations path).foldlM addPath tree

/-- The files that a source text includes. -/
def includedNames (text : String) : List String :=
  (Text.lines text).filterMap fun l =>
    match Directive.parse (String.ofList l) (SourceLine.synthetic "") with
    | .ok (.includeFile name) => some name
    | _ => none

/-- Add the files that the files of a tree may include, as long as there are new ones. -/
partial def close (directories : List String) (done : List Place) (tree : FileTree) :
    IO FileTree := do
  match tree.files.find? fun f => !done.contains f.1 with
  | none => return tree
  | some (place, text) =>
    let own := place.parent.render
    let paths := (includedNames (text.getD "")).flatMap fun n =>
      (own :: directories).map fun d => join d n
    close directories (place :: done) (← paths.foldlM addAll tree)

/-- The tree that a run in a directory needs. -/
def treeFor (c : Command) (directory : String) : IO FileTree := do
  let inHere (path : String) : String := join directory path
  let directories := c.options.includePaths.map inHere
  let seeds := inHere c.file :: inHere c.outputPath :: directories ++ (c.config.map inHere).toList
  let tree ← seeds.foldlM addAll { files := [], directories := [placeOf directory] }
  close directories [] tree

end Retarget.Main

/-- Run the command. -/
def main (args : List String) : IO UInt32 := do
  let directory := (← IO.currentDir).toString
  let outcome ←
    match Retarget.Command.ofArguments args with
    | .error refusal => pure refusal.outcome
    | .ok c => pure (c.run (← Retarget.Main.treeFor c directory) (Retarget.Main.placeOf directory))
  if let some (place, bytes) := outcome.written then
    IO.FS.writeBinFile place.render ⟨bytes.toArray⟩
  IO.print outcome.stdout
  IO.eprint outcome.stderr
  return outcome.code.toUInt32
