import Retarget.Hex.Record

/-!
# Intel HEX files

A file is a list of records of which the last one, and no other, ends it. An image becomes data
records of up to 32 bytes that do not cross a boundary of 64 KiB, with a record for the upper half
of the address wherever that half changes.
-/

namespace Retarget

/-- Records in the order of the file. -/
structure HexFile where
  records : List HexRecord := []
  deriving DecidableEq, Repr, Inhabited

namespace HexFile

/-- Whether the file has the record that ends it. -/
def isFinished (f : HexFile) : Bool := f.records.any fun r => r.kind = .endOfFile

/-- Add a record to a file that is not finished. -/
def add (f : HexFile) (r : HexRecord) : Except HexError HexFile :=
  if f.isFinished then .error .afterEnd else .ok { records := f.records ++ [r] }

/-! ## Images -/

/-- How many data bytes a record has at most. -/
def maxData : Nat := 32

/-- How many bytes the next record takes, of `count` bytes from `address` on. -/
def chunkSize (address count : Nat) : Nat := min count (min maxData (0x10000 - address % 0x10000))

/-- The records of bytes from `address` on, after a record for the upper half `current`. -/
def dataRecords (current : UInt16) (address : Nat) (bytes : List UInt8) : List HexRecord :=
  match bytes with
  | [] => []
  | b :: rest =>
    let half := UInt16.ofNat (address / 0x10000)
    let size := chunkSize address (rest.length + 1)
    let record : HexRecord :=
      { address := UInt16.ofNat address, kind := .data, data := (b :: rest).take size }
    let records := record :: dataRecords half (address + size) ((b :: rest).drop size)
    if half = current then records else HexRecord.upper half :: records
termination_by bytes.length
decreasing_by
  have : 0 < chunkSize address (rest.length + 1) := by
    unfold chunkSize maxData
    omega
  simp only [List.length_drop, List.length_cons]
  omega

/-- The file of an image at an address. -/
def ofImage (base : Nat) (bytes : List UInt8) : Except HexError HexFile :=
  if 2 ^ (32 : Nat) < base + bytes.length then .error .tooLarge
  else .ok { records := dataRecords 0 base bytes ++ [HexRecord.eof] }

/-! ## Reading and writing -/

/-- Read the records of some lines, of which those that are no records are ignored. -/
def readLines (f : HexFile) : List String → Except HexError HexFile
  | [] => .ok f
  | s :: rest => do
    match ← HexRecord.parse s with
    | some r => readLines (← f.add r) rest
    | none => readLines f rest

/-- Read a file. -/
def parse (lines : List String) : Except HexError HexFile := do
  let f ← readLines {} lines
  if f.isFinished then return f else throw .missingEnd

/-- The lines of a finished file. -/
def render (f : HexFile) : Except HexError (List String) :=
  if f.isFinished then .ok (f.records.map HexRecord.render) else .error .unfinished

/-- The data bytes with their addresses, where `upper` is added to the addresses. -/
def bytesFrom (upper : Nat) : List HexRecord → List (Nat × UInt8)
  | [] => []
  | r :: rest =>
    match r.kind with
    | .data =>
      let base := upper + r.address.toNat
      r.data.zipIdx.map (fun (b, i) => (base + i, b)) ++ bytesFrom upper rest
    | .upperAddress =>
      let half := r.data.foldl (fun acc b => acc * 256 + b.toNat) 0
      bytesFrom (half * 0x10000 % 2 ^ (64 : Nat)) rest
    | .endOfFile => bytesFrom upper rest

/-- The data bytes with their addresses, in the order of the file. -/
def toBytes (f : HexFile) : List (Nat × UInt8) := bytesFrom 0 f.records

end HexFile

end Retarget
