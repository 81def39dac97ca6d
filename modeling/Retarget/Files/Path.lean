import Retarget.Text.Blank

/-!
# Paths as they are written

Two written paths are the same if their components are. Repeated and trailing slashes and dots
inside a path make no component.
-/

namespace Retarget

/-- A part of a written path. -/
inductive PathPart
  | root
  /-- A dot at the start of the path. -/
  | here
  | parent
  | name (text : String)
  deriving DecidableEq, Repr

namespace PathPart

/-- The component of a piece between slashes, if it makes one. -/
def ofPiece? (isFirst : Bool) (piece : String) : Option PathPart :=
  match piece with
  | "" => none
  | "." => if isFirst then some here else none
  | ".." => some parent
  | text => some (name text)

end PathPart

namespace WrittenPath

/-- Whether a path starts at the root. -/
def isAbsolute (path : String) : Bool := path.toList.head? == some '/'

/-- The pieces of a path between its slashes. -/
def pieces (path : String) : List String := (path.toList.splitOn '/').map String.ofList

/-- The components of a path. -/
def parts (path : String) : List PathPart :=
  let own :=
    (pieces path).zipIdx.filterMap fun (piece, i) => PathPart.ofPiece? (i == 0) piece
  if isAbsolute path then .root :: own else own

/-- The last component, if it is a name. -/
def fileName? (path : String) : Option String :=
  match (parts path).getLast? with
  | some (.name text) => some text
  | _ => none

/-- A file name before and after its last dot. A name that only starts with a dot has no
extension. -/
def splitExtension (name : String) : String × Option String :=
  let cs := name.toList
  let after := (cs.reverse.takeWhile fun c => c != '.').reverse
  let before := cs.take (cs.length - after.length - 1)
  if after.length == cs.length || before.isEmpty then (name, none)
  else (String.ofList before, some (String.ofList after))

/-- The file name without its extension. -/
def stem? (path : String) : Option String := (fileName? path).map fun n => (splitExtension n).1

/-- The extension of the file name. -/
def extension? (path : String) : Option String :=
  (fileName? path).bind fun n => (splitExtension n).2

/-- The path with another extension; what follows its file name is dropped. -/
def withExtension (path extension : String) : String :=
  match fileName? path with
  | none => path
  | some name =>
    let cs := path.toList
    let kept := (pieces path).reverse.dropWhile fun p => p != name
    let stem := (splitExtension name).1
    let body := ("/".intercalate kept.reverse).toList
    String.ofList ((cs.take (body.length - name.length)) ++ (stem ++ "." ++ extension).toList)

end WrittenPath

/-- Written paths of loaded files, numbered in the order of their loading. -/
abbrev FileTable := List String

namespace FileTable

/-- The number of a path. -/
def find? (t : FileTable) (path : String) : Option Nat :=
  t.findIdx? fun p => WrittenPath.parts p == WrittenPath.parts path

/-- The number of a path, which is added if it is new. -/
def add (t : FileTable) (path : String) : FileTable × Nat :=
  match t.find? path with
  | some i => (t, i)
  | none => (t ++ [path], t.length)

/-- The name of a file in messages. -/
def displayName (path : String) : String := (WrittenPath.fileName? path).getD path

end FileTable

end Retarget
