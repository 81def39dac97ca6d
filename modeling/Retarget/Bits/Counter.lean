import Retarget.Text.Digits

/-!
# Counters of bits

Widths are added up in counters of 32 bits. A full counter starts again at zero: a sum is right as
it stands below `2 ^ 32`, and up to multiples of `2 ^ 32` otherwise.
-/

namespace Retarget.Counter

/-- What a counter shows that has counted to `n`. -/
def wrap (n : Nat) : Nat := n % 2 ^ (32 : Nat)

/-- Count `n` further. -/
def add (m n : Nat) : Nat := wrap (m + n)

/-- Count back by `n`. -/
def sub (m n : Nat) : Nat := wrap (m + 2 ^ (32 : Nat) - n)

/-- Count all widths of a list. -/
def sum (widths : List Nat) : Nat := widths.foldr add 0

variable {m n : Nat}

theorem wrap_of_lt (h : n < 2 ^ (32 : Nat)) : wrap n = n := Nat.mod_eq_of_lt h

theorem add_of_lt (h : m + n < 2 ^ (32 : Nat)) : add m n = m + n := wrap_of_lt h

@[simp] theorem wrap_wrap (n : Nat) : wrap (wrap n) = wrap n := Nat.mod_mod _ _

theorem sum_cons (width : Nat) (widths : List Nat) :
    sum (width :: widths) = add width (sum widths) := rfl

@[simp] theorem add_wrap_left (m n : Nat) : add (wrap m) n = add m n := Nat.mod_add_mod m _ n

@[simp] theorem add_wrap_right (m n : Nat) : add m (wrap n) = add m n := Nat.add_mod_mod m n _

end Retarget.Counter
