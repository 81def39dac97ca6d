import Retarget.Files.Fault
import Retarget.Number
import Retarget.SourceLine

/-!
# Why a program cannot be loaded or laid out
-/

namespace Retarget

/-- What can go wrong with a whole program. -/
inductive ProgramError
  | cannotOpen (path : String) (fault : FileFault)
  | file (fault : FileFault)
  | includedTwice (path : String)
  | includeMissing (name : String)
  | includeAmbiguous (name : String) (paths : List String)
  /-- The words of two lines share an address. -/
  | overlap (other : SourceLine) (address : Int)
  /-- A warning where warnings are errors. -/
  | warning (text : String)
  deriving DecidableEq, Repr

namespace ProgramError

/-- The text of the message. -/
def message : ProgramError → String
  | cannotOpen path fault => s!"can't open source file {path}: {fault.message}"
  | file fault => fault.message
  | includedTwice path => s!"assembly file {path} included multiple times"
  | includeMissing name => s!"could not find included file \"{name}\""
  | includeAmbiguous name paths =>
    let found := ", ".intercalate paths
    s!"included file \"{name}\" is ambiguous; found in: {found}"
  | overlap other address =>
    s!"Address of byte code at this line overlaps with bytecode from line {other.render} at " ++
      s!"address 0x{Number.hex address}"
  | warning text => text

end ProgramError

end Retarget
