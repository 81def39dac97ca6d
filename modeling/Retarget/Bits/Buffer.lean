import Retarget.Bits.Word

/-!
# Bit buffers

Fields of any width are collected, most significant bit first, into bytes. The last byte is filled
up with zero bits.
-/

namespace Retarget

/-- Collected bits. -/
structure BitBuffer where
  /-- The bytes begun so far. -/
  bytes : Array UInt8 := #[]
  /-- How many bits they hold. -/
  length : Nat := 0
  deriving DecidableEq, Repr, Inhabited

namespace BitBuffer

/-- The buffer without bits. -/
def empty : BitBuffer := {}

/-- Append one bit. -/
def push (b : BitBuffer) (bit : Bool) : BitBuffer :=
  let bytes := if b.length % 8 = 0 then b.bytes.push 0 else b.bytes
  let bytes :=
    if bit then
      bytes.modify (bytes.size - 1) fun last => last ||| (0x80 >>> UInt8.ofNat (b.length % 8))
    else bytes
  { bytes, length := b.length + 1 }

/-- Skip to the next byte boundary. -/
def pad (b : BitBuffer) : BitBuffer :=
  if b.length % 8 = 0 then b else { b with length := b.length + (8 - b.length % 8) }

/-- Append the low `width` bits of `value`, most significant first. -/
def append (b : BitBuffer) (value : Nat) : Nat → BitBuffer
  | 0 => b
  | width + 1 => append (b.push (value.testBit width)) value width

/-- Append bits, from the next byte boundary on if `aligned`. -/
def appendField (b : BitBuffer) (value width : Nat) (aligned : Bool) : BitBuffer :=
  (if aligned then b.pad else b).append value width

/-- Append a word, segment by segment. -/
def appendWord (b : BitBuffer) (w : Word) (aligned : Bool) : BitBuffer :=
  w.orderedSegments.foldl (fun b s => b.append s w.geometry.segment) (if aligned then b.pad else b)

/-- Append words, each from a byte boundary on unless `compact`. -/
def appendWords (b : BitBuffer) (words : List Word) (compact : Bool) : BitBuffer :=
  words.foldl (fun b w => b.appendWord w (!compact)) b

end BitBuffer

/-- The bytes of a run of words: their bits back to back, or each word from a byte boundary on. -/
def wordsToBytes (words : List Word) (compact : Bool) : Array UInt8 :=
  (BitBuffer.empty.appendWords words compact).bytes

end Retarget
