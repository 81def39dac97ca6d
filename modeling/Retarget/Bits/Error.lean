import Retarget.Number

/-!
# Why a value has no bit pattern
-/

namespace Retarget

/-- What can be wrong with slices, words and multi-word values. -/
inductive BitsError
  /-- A slice of no bits holds only zero. -/
  | noBits (value : Int)
  | sliceTooWide (size : Nat)
  | sliceOverflow (value : Int) (size : Nat)
  | wordSize (size : Nat)
  | segmentSize (segment size : Nat)
  | wordOverflow (value size : Nat)
  /-- Slices that together are wider than the word. -/
  | slicesOverflow (total size : Nat)
  | noWordSize
  | valueTooWide (value : Int) (size : Nat)
  deriving DecidableEq, Repr

namespace BitsError

/-- The text of the message. -/
def message : BitsError → String
  | noBits value => s!"value {value} does not fit in a 0-bit slice"
  | sliceTooWide size => s!"slice width of {size} bits is too large"
  | sliceOverflow value size => s!"value {value} does not fit in {size} bits"
  | wordSize size => s!"word size of {size} bits is not supported"
  | segmentSize segment size =>
    s!"segment size {segment} does not evenly divide word size {size}"
  | wordOverflow value size =>
    s!"value 0x{Text.hexLower value} does not fit in a {size}-bit word"
  | slicesOverflow total size => s!"{total} bits of slices do not fit in a {size}-bit word"
  | noWordSize => "word size must be greater than 0"
  | valueTooWide value size => s!"value {value} needs {size} bits which is more than supported"

/-- Whether the geometry of the words is at fault, and not the value. -/
def isGeometry : BitsError → Bool
  | wordSize _ | segmentSize .. | noWordSize => true
  | _ => false

end BitsError

end Retarget
