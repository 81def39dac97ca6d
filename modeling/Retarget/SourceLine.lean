/-!
# Source lines

Every message names the line it is about: a file name, a line number from one, and the macro step
when the text came from a macro. Lines without a file (values given by the instruction set or on the
command line) carry the name of their origin and the number zero.
-/

namespace Retarget

/-- Where a statement was written. -/
structure SourceLine where
  /-- Number of the file among the loaded ones. -/
  file : Option Nat
  /-- File name, without its directory. -/
  name : String
  /-- Line number, from one. -/
  number : Nat
  /-- The macro step that produced the text. -/
  expansion : Option String := none
  deriving DecidableEq, Repr, Inhabited

namespace SourceLine

/-- A line that is in no file. -/
def synthetic (origin : String) : SourceLine := { file := none, name := origin, number := 0 }

/-- The line a macro step stands on. -/
def inMacro (line : SourceLine) (macroName : String) (step : Nat) : SourceLine :=
  { line with expansion := some s!"macro {macroName} step {step}" }

/-- The text of a line in messages. -/
def render (line : SourceLine) : String :=
  match line.expansion with
  | none => s!"{line.name}:{line.number}"
  | some e => s!"{line.name}:{line.number}, {e}"

end SourceLine

end Retarget
