import Retarget.Files.Fault
import Retarget.Files.Path

/-!
# File trees

The files that an assembly may read, with their texts. Following a written path from a directory
leads to one place in the tree, or fails as the system would. Links are followed on the way: a place
that is led to is canonical, and files are looked up by their canonical places only.
-/

namespace Retarget

/-- A place in a tree: names from the root on. -/
abbrev Place := List String

namespace Place

/-- The absolute path of a place. -/
def render (p : Place) : String := "/" ++ "/".intercalate p

/-- The directory of a place. -/
def parent (p : Place) : Place := p.dropLast

end Place

/-- Files with their texts, directories and links. -/
structure FileTree where
  /-- The files; one that is no text has none. -/
  files : List (Place × Option String)
  /-- Directories that need not hold files. -/
  directories : List Place
  /-- The canonical place of an entry of a directory. An entry that is no link is its own. -/
  canonical : Place → Place := id
  deriving Inhabited

namespace FileTree

/-- The text of a file; none if there is no such file. -/
def file? (t : FileTree) (p : Place) : Option (Option String) := t.files.lookup p

/-- Whether a place is a directory: the root, a given one, or one on the way to something. -/
def isDirectory (t : FileTree) (p : Place) : Bool :=
  p.isEmpty || t.directories.any (fun d => p.isPrefixOf d) ||
    t.files.any fun f => p.isPrefixOf f.1.parent

/-- Follow one piece of a path. -/
def step (t : FileTree) (p : Place) (piece : String) : Except FileFault Place :=
  if !t.isDirectory p then .error .notDirectory
  else
    match piece with
    | "" | "." => .ok p
    | ".." => .ok p.parent
    | name =>
      let next := t.canonical (p ++ [name])
      if t.isDirectory next || (t.file? next).isSome then .ok next else .error .missing

/-- Follow a written path from a directory. -/
def resolve (t : FileTree) (start : Place) (path : String) : Except FileFault Place :=
  if path.isEmpty then .error .missing
  else
    let start := if WrittenPath.isAbsolute path then [] else start
    (WrittenPath.pieces path).foldlM t.step start

/-- The place of a file that is to be written, where a directory must be for it. -/
def target (t : FileTree) (start : Place) (path : String) : Except FileFault Place := do
  let pieces := WrittenPath.pieces path
  let names := (pieces.reverse.dropWhile fun p => p.isEmpty).reverse
  match names.getLast? with
  | none => .error (if path.isEmpty then .missing else .isDirectory)
  | some last =>
    let start := if WrittenPath.isAbsolute path then [] else start
    let parent ← names.dropLast.foldlM t.step start
    let place := t.canonical (parent ++ [last])
    if !t.isDirectory parent then .error .notDirectory
    else if names.length < pieces.length || last == "." || last == ".." || t.isDirectory place then
      .error .isDirectory
    else return place

/-- The file that a written path leads to from a directory. -/
def locate? (t : FileTree) (start : Place) (path : String) : Option Place :=
  match t.resolve start path with
  | .ok p => if (t.file? p).isSome then some p else none
  | .error _ => none

/-- Read the text of a file. -/
def read (t : FileTree) (p : Place) : Except FileFault String :=
  match t.file? p with
  | some (some text) => .ok text
  | some none => .error .notText
  | none => .error (if t.isDirectory p then .isDirectory else .missing)

end FileTree

end Retarget
