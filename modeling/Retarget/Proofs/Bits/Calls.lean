import Retarget.Proofs.Bits.Serial

/-!
# Histories of bit buffers

Fields of any width are appended to a buffer, some of them from a byte boundary on, and bytes are
completed, in any order and number. Completing a byte only moves the length: the byte is there
already, and a byte is begun by the first bit that is put into it. What the buffer holds can be told
from the calls alone.

* `BitBuffer.Call.bits`: the bits that a call adds, which depend on where the buffer ends
  (`BitBuffer.gap`);
* `BitBuffer.bitsOfCalls`: the bits that calls add, one after the other;
* `BitBuffer.Holds.call`: what a call does to the bits of a buffer, and `BitBuffer.Holds.applyAll`
  what many do;
* `BitBuffer.bits_after_calls`: the bytes after any calls on an empty buffer.
-/

namespace Retarget

namespace BitBuffer

/-- A call on a bit buffer. -/
inductive Call
  | append (value width : Nat) (aligned : Bool)
  | pad
  deriving DecidableEq, Repr

/-- The buffer after a call. -/
def call (b : BitBuffer) : Call → BitBuffer
  | .append value width aligned => b.appendField value width aligned
  | .pad => b.pad

/-- The buffer after some calls. -/
def applyAll (b : BitBuffer) (calls : List Call) : BitBuffer := calls.foldl call b

/-! ## What calls add -/

/-- The zero bits between `n` bits and the next byte boundary. -/
def gap (n : Nat) : List Bool := List.replicate (wholeBits 8 n - n) false

/-- The bits that a call adds behind `n` bits. -/
def Call.bits (n : Nat) : Call → List Bool
  | append value width aligned => (if aligned then gap n else []) ++ bitsOf value width
  | pad => gap n

/-- The bits that calls add behind `n` bits, one call after the other. -/
def bitsOfCalls (n : Nat) : List Call → List Bool
  | [] => []
  | c :: calls => c.bits n ++ bitsOfCalls (n + (c.bits n).length) calls

namespace Holds

variable {b : BitBuffer} {bits : List Bool}

/-- A field is added, from a byte boundary on if it is aligned. -/
theorem appendField (h : b.Holds bits) (value width : Nat) (aligned : Bool) :
    (b.appendField value width aligned).Holds (bits ++
      (Call.append value width aligned).bits bits.length) := by
  rw [Call.bits, ← List.append_assoc]
  cases aligned with
  | false =>
    rw [if_neg Bool.false_ne_true, List.append_nil]
    exact h.append value width
  | true => exact h.pad.append value width

/-- **A call adds its bits.** -/
theorem call (h : b.Holds bits) (c : Call) : (b.call c).Holds (bits ++ c.bits bits.length) := by
  cases c with
  | append value width aligned => exact h.appendField value width aligned
  | pad => exact h.pad

/-- **Calls add their bits one after the other.** -/
theorem applyAll (h : b.Holds bits) (calls : List Call) :
    (b.applyAll calls).Holds (bits ++ bitsOfCalls bits.length calls) := by
  induction calls generalizing b bits with
  | nil =>
    rw [bitsOfCalls, List.append_nil]
    exact h
  | cons c calls ih =>
    have hrest := ih (h.call c)
    rwa [List.length_append, List.append_assoc] at hrest

end Holds

/-- **A buffer is a list of bits, whatever is done to it.** Let any calls be made on an empty
buffer. Then there are as many bytes as its bits need, and the bits that are left in the last byte
are zero. The others, most significant bit of the first byte first, are what the calls add: the low
bits of each field, most significant first, and zero bits up to the next byte boundary for each
completed byte and in front of each aligned field. -/
theorem bits_after_calls (calls : List Call) :
    let b := empty.applyAll calls
    b.bytes.size = b.length ⌈/⌉ 8 ∧
    (∀ bit ∈ (byteBits b.bytes).drop b.length, bit = false) ∧
    (byteBits b.bytes).take b.length = bitsOfCalls 0 calls := by
  intro b
  have h : b.Holds (bitsOfCalls 0 calls) := Holds.nil.applyAll calls
  rw [h.length_eq]
  exact ⟨h.size_eq_ceilDiv, h.drop_byteBits, h.take_byteBits⟩

/-- An aligned field without bits completes the byte too, and completing it again adds nothing. The
byte behind it is begun by the next bit only. Of a value that is too large the low bits are
taken. -/
theorem bits_after_calls_empty_field :
    let start : List Call := [.append 0b101 3 false, .append 0b11 2 false, .append 0 0 true]
    let calls := start ++ [.pad, .append 0x3ab 8 true, .append 1 4 false]
    empty.applyAll start = { bytes := #[0b10111000], length := 8 } ∧
      empty.applyAll calls = { bytes := #[0b10111000, 0xab, 0x10], length := 20 } ∧
      bitsOfCalls 0 calls =
        bitsOf 0b101 3 ++ bitsOf 0b11 2 ++ List.replicate 3 false ++ bitsOf 0xab 8 ++
          bitsOf 1 4 := by
  intro start calls
  have hbuffer : empty.applyAll calls = { bytes := #[0b10111000, 0xab, 0x10], length := 20 } := by
    decide
  obtain ⟨-, -, hbits⟩ := bits_after_calls calls
  rw [hbuffer] at hbits
  exact ⟨by decide, hbuffer, hbits.symm.trans (by decide)⟩

end BitBuffer

end Retarget
