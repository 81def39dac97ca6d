import Retarget.Bits.Error

/-!
# Slices

A slice is a number tagged with how many bits it takes. Signed and unsigned readings are both
accepted: the values of an `n`-bit slice run from `-2 ^ (n - 1)` up to `2 ^ n - 1`. A slice of no
bits is a placeholder and holds only zero. The limit `2 ^ n` is itself a 128-bit number: at 127 bits
it wraps around below all values, so that no value fits.
-/

namespace Retarget

/-- A number and the count of bits it takes. -/
structure Slice where
  value : Int
  size : Nat
  size_le : size ≤ 126 := by decide
  /-- The value is not below the least one of the signed reading; without bits, that is zero. -/
  value_ge : -2 ^ size ≤ 2 * value := by decide
  value_lt : value < 2 ^ size := by decide
  deriving DecidableEq, Repr

namespace Slice

/-- What the checks of a slice with bits leave over. The upper limit of 127 bits is below all
values, so that none of them passes. -/
theorem range_of_checks {value : Int} {size : Nat} (hpos : ¬ size = 0) (hwide : ¬ 127 < size)
    (h : ¬ (value < -2 ^ (size - 1) ∨ Number.wrap (2 ^ size) ≤ value)) :
    size ≤ 126 ∧ -2 ^ size ≤ 2 * value ∧ value < 2 ^ size := by
  obtain ⟨n, rfl⟩ := Nat.exists_eq_succ_of_ne_zero hpos
  rw [Nat.succ_eq_add_one, Nat.add_sub_cancel] at h
  rw [Nat.succ_eq_add_one]
  have hsize : n + 1 ≤ 126 := by
    refine Nat.le_of_not_lt fun hlt => h ?_
    obtain rfl : n = 126 := by omega
    have hlimit : Number.wrap (2 ^ (126 + 1)) = -2 ^ 127 := by decide
    rw [hlimit]
    omega
  rw [Number.wrap_two_pow hsize] at h
  have hdouble : (2 : Int) ^ (n + 1) = 2 * 2 ^ n := by rw [Int.pow_succ, Int.mul_comm]
  omega

/-- Tag a value with its width, which is at most 127. -/
def make (value : Int) (size : Nat) : Except BitsError Slice :=
  if hpos : size = 0 then
    if value = 0 then .ok { value := 0, size := 0 } else .error (.noBits value)
  else if hwide : 127 < size then .error (.sliceTooWide size)
  else if h : value < -2 ^ (size - 1) ∨ Number.wrap (2 ^ size) ≤ value then
    .error (.sliceOverflow value size)
  else
    have hrange := range_of_checks hpos hwide h
    .ok { value, size, size_le := hrange.1, value_ge := hrange.2.1, value_lt := hrange.2.2 }

/-- The two's-complement pattern, `size` bits wide. A negative value is counted back from the limit
`2 ^ size`. -/
def raw (s : Slice) : Nat :=
  if s.size = 0 then 0
  else if s.value < 0 then Number.bits (Number.wrap (2 ^ s.size) + s.value)
  else Number.bits s.value &&& Number.lowMask s.size

end Slice

end Retarget
