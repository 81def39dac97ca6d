import Retarget.Number

/-!
# Why a field of an instruction has no value
-/

namespace Retarget

/-- What a configured limit is put on. -/
inductive Limited
  | operand
  | offset
  deriving DecidableEq, Repr

namespace Limited

/-- The words for it in messages. -/
def text : Limited → String
  | operand => "operand value"
  | offset => "relative address offset"

end Limited

/-- What can be wrong with the value of a field. -/
inductive FieldError
  | aboveZone (value last : Int) (zone : String)
  | belowZone (value first : Int) (zone : String)
  | aboveMax (what : Limited) (value greatest : Int)
  | belowMin (what : Limited) (value least : Int)
  /-- The value is not a key of the table. -/
  | notListed (value : Int) (text : String) (keys : List Int)
  /-- The target is on another page than the instruction. -/
  | otherPage (value address : Int)
  deriving DecidableEq, Repr

namespace FieldError

/-- The text of the message. -/
def message : FieldError → String
  | aboveZone value last zone =>
    s!"address value 0x{Number.hex value} exceeds the maximum address 0x{Number.hex last} of " ++
      s!"memory zone \"{zone}\""
  | belowZone value first zone =>
    s!"address value 0x{Number.hex value} is below the minimum address 0x{Number.hex first} of " ++
      s!"memory zone \"{zone}\""
  | aboveMax what value greatest =>
    s!"{what.text} of {value} exceeds the maximum allowed value of {greatest}"
  | belowMin what value least =>
    s!"{what.text} of {value} is less than the minimum allowed value of {least}"
  | notListed value text keys =>
    let listed := ", ".intercalate (keys.map toString)
    s!"value {value} of \"{text}\" is not one of the allowed values [{listed}]"
  | otherPage value address =>
    s!"operand address value 0x{Number.hex value} does not have the same MSBs as the " ++
      s!"instruction address 0x{Number.hex address}"

end FieldError

end Retarget
