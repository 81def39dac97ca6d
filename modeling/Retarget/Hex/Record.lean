import Retarget.Hex.Error
import Retarget.Text.Blank
import Retarget.Text.Digits

/-!
# Intel HEX records

A record is a line of hexadecimal digits after a colon: the count of data bytes, an address, the
kind, the data and a checksum that makes the sum of all bytes zero.
-/

namespace Retarget

/-- The kinds of records. -/
inductive RecordKind
  | data
  | endOfFile
  /-- The upper half of the addresses of the records that follow. -/
  | upperAddress
  deriving DecidableEq, Repr

namespace RecordKind

/-- The number of a kind. -/
def code : RecordKind → UInt8
  | data => 0
  | endOfFile => 1
  | upperAddress => 4

/-- The kind with a number. -/
def ofCode? (code : UInt8) : Option RecordKind :=
  match code with
  | 0 => some data
  | 1 => some endOfFile
  | 4 => some upperAddress
  | _ => none

end RecordKind

/-- A record. -/
structure HexRecord where
  address : UInt16
  kind : RecordKind
  data : List UInt8
  deriving DecidableEq, Repr

namespace HexRecord

/-- The record that ends a file. -/
def eof : HexRecord := { address := 0, kind := .endOfFile, data := [] }

/-- The upper half of the addresses of the records that follow. -/
def upper (half : UInt16) : HexRecord :=
  { address := 0, kind := .upperAddress, data := [(half >>> 8).toUInt8, half.toUInt8] }

/-- The byte that makes the sum of all bytes of the record zero. -/
def checksum (r : HexRecord) : UInt8 :=
  let header :=
    UInt8.ofNat r.data.length + (r.address >>> 8).toUInt8 + r.address.toUInt8 + r.kind.code
  0 - r.data.foldl (· + ·) header

/-- The two digits of a byte. -/
def byteText (b : UInt8) : String := Text.hexUpper 2 b.toNat

/-- The line of a record. -/
def render (r : HexRecord) : String :=
  ":" ++ Text.hexUpper 2 r.data.length ++ Text.hexUpper 4 r.address.toNat ++ byteText r.kind.code ++
    String.join (r.data.map byteText) ++ byteText r.checksum

/-! ## Reading -/

/-- The bytes of pairs of hexadecimal digits; none if there is another character or half a pair. -/
def readBytes : List Char → Option (List UInt8)
  | [] => some []
  | [_] => none
  | a :: b :: rest => do
    let high ← Text.digitIn 16 a
    let low ← Text.digitIn 16 b
    let bytes ← readBytes rest
    return UInt8.ofNat (high * 16 + low) :: bytes

/-- The bytes of a line that has the form of a record, which is that of the pattern
`(?i)^\s*:([0-9a-f]{2})([0-9a-f]{4})([0-9a-f]{2})((?:[0-9a-f]{2})*)([0-9a-f]{2})\s*$`. -/
def readLine (s : String) : Option (List UInt8) :=
  match Text.trim s.toList with
  | ':' :: digits => if 10 ≤ digits.length then readBytes digits else none
  | _ => none

/-- The digits of the kind, as they are written in a line that has the form of a record. -/
def kindDigits (s : String) : String := String.ofList (((Text.trim s.toList).drop 7).take 2)

/-- Read a line; one that does not have the form of a record is none. -/
def parse (s : String) : Except HexError (Option HexRecord) :=
  match readLine s with
  | some (size :: high :: low :: code :: rest) =>
    match RecordKind.ofCode? code with
    | none => .error (.unsupportedType (kindDigits s))
    | some kind =>
      let data := rest.dropLast
      let record : HexRecord := { address := high.toUInt16 <<< 8 ||| low.toUInt16, kind, data }
      if data.length != size.toNat then .error .lengthMismatch
      else if rest.getLast? != some record.checksum then .error .checksumMismatch
      else .ok (some record)
  | _ => .ok none

end HexRecord

end Retarget
