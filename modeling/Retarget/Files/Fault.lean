/-!
# What the system says about files
-/

namespace Retarget

/-- Why a path leads nowhere, or a file cannot be read or made. -/
inductive FileFault
  | missing
  | notDirectory
  | isDirectory
  | notText
  deriving DecidableEq, Repr

namespace FileFault

/-- The text of the message. -/
def message : FileFault → String
  | missing => "No such file or directory (os error 2)"
  | notDirectory => "Not a directory (os error 20)"
  | isDirectory => "Is a directory (os error 21)"
  | notText => "stream did not contain valid UTF-8"

end FileFault

end Retarget
