/-!
# Why a list of records is no Intel HEX file
-/

namespace Retarget

/-- What can be wrong with records. -/
inductive HexError
  | unsupportedType (digits : String)
  | lengthMismatch
  | checksumMismatch
  | tooLarge
  | missingEnd
  | afterEnd
  | unfinished
  deriving DecidableEq, Repr

namespace HexError

/-- The text of the message. -/
def message : HexError → String
  | unsupportedType digits => s!"unsupported hex record type {digits}"
  | lengthMismatch => "hex record length does not match its byte count"
  | checksumMismatch => "hex record checksum mismatch"
  | tooLarge => "image does not fit in the 32-bit Intel HEX address space"
  | missingEnd => "EOF record not found in hex file"
  | afterEnd => "records after EOF in hex file"
  | unfinished => "cannot write hex file without EOF record"

end HexError

end Retarget
