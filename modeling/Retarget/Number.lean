import Retarget.Text.Digits

/-!
# Numbers

Every number of the assembly language is a signed integer of 128 bits. They are kept as `Int`; the
operations that can leave the range say what happens there, and the two's-complement view
(`bits`, `wrap`) is the 128-bit one.
-/

namespace Retarget.Number

/-- The least number. -/
def least : Int := -2 ^ (127 : Nat)

/-- The greatest number. -/
def greatest : Int := 2 ^ (127 : Nat) - 1

/-- Whether an integer is a number of the language. -/
def fits (v : Int) : Bool := decide (least ≤ v) && decide (v ≤ greatest)

/-- The two's-complement pattern. -/
def pattern (v : Int) : BitVec 128 := BitVec.ofInt 128 v

/-- The two's-complement pattern read as an unsigned integer. -/
def bits (v : Int) : Nat := (pattern v).toNat

/-- The number that has the low 128 bits of `v`. -/
def wrap (v : Int) : Int := (pattern v).toInt

theorem wrap_eq_self {v : Int} (hle : -2 ^ (127 : Nat) ≤ v) (hlt : v < 2 ^ (127 : Nat)) :
    wrap v = v := by
  rw [wrap, pattern, BitVec.toInt_ofInt]
  apply Int.bmod_eq_of_le <;> omega

theorem wrap_two_pow {size : Nat} (h : size ≤ 126) : wrap (2 ^ size) = 2 ^ size := by
  have hle : (2 : Int) ^ size ≤ 2 ^ 126 := by
    exact_mod_cast Nat.pow_le_pow_right (by decide : 2 > 0) h
  have hpos : (0 : Int) < 2 ^ size := Int.pow_pos (by decide)
  exact wrap_eq_self (by omega) (by omega)

/-- Hexadecimal text of the pattern, as messages show addresses. -/
def hex (v : Int) : String := Text.hexLower (bits v)

/-- How many bits the magnitude of `v` needs; none for zero. -/
def bitLength (v : Int) : Nat := if v = 0 then 0 else v.natAbs.log2 + 1

/-- The mask of the low `width` bits, at most 128 of them. -/
def lowMask (width : Nat) : Nat := 2 ^ min width 128 - 1

/-- Shift right, keeping the sign; a shift by the whole width or more gives zero. -/
def shiftRight (v : Int) (amount : Nat) : Int := if amount < 128 then v >>> amount else 0

/-- The byte `index` places above the lowest one. -/
def byteAt (index : Nat) (v : Int) : Int := if index < 16 then (v >>> (8 * index)) % 256 else 0

end Retarget.Number
