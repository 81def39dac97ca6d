import Retarget.Bits.Word

/-!
# Runs of slices

Slices are packed side by side into words, from the most significant bit on. A slice that does not
fit into what is left of a word is cut there and goes on in the next one; the last word is filled up
with zero bits.
-/

namespace Retarget

/-- A word that is being filled: the bits so far, as a number, and how many they are. -/
structure PartialWord (g : Geometry) where
  value : Nat
  width : Nat
  value_lt : value < 2 ^ width
  width_lt : width < g.size

namespace PartialWord

variable {g : Geometry}

/-- A word without bits. -/
def empty (h : 0 < g.size) : PartialWord g :=
  { value := 0, width := 0, value_lt := by decide, width_lt := h }

/-- How many bits fit into what is left of the word. -/
def room (p : PartialWord g) : Nat := g.size - p.width

theorem room_pos (p : PartialWord g) : 0 < p.room := Nat.sub_pos_of_lt p.width_lt

/-- Bits put behind others. -/
theorem append_lt {a m b n : Nat} (ha : a < 2 ^ m) (hb : b < 2 ^ n) :
    a * 2 ^ n + b < 2 ^ (m + n) := by
  have h : (a + 1) * 2 ^ n ≤ 2 ^ m * 2 ^ n := Nat.mul_le_mul_right _ ha
  rw [Nat.pow_add]
  rw [Nat.add_mul, Nat.one_mul] at h
  omega

/-- Put the low `count` bits of `raw` behind those of a word that they do not fill. -/
def push (p : PartialWord g) (raw count : Nat) (h : p.width + count < g.size) : PartialWord g where
  value := p.value * 2 ^ count + raw % 2 ^ count
  width := p.width + count
  value_lt := append_lt p.value_lt (Nat.mod_lt _ (Nat.two_pow_pos _))
  width_lt := h

/-- The word with the bits that fill it, which are the highest of the low `count` bits of `raw`. -/
def fill (p : PartialWord g) (raw count : Nat) : Except BitsError Word :=
  Word.make (p.value * 2 ^ p.room + raw / 2 ^ (count - p.room) % 2 ^ p.room) g

/-- The words that the low `count` bits of `raw` fill, and the word that they leave. -/
def pour (p : PartialWord g) (raw count : Nat) : Except BitsError (List Word × PartialWord g) :=
  if h : p.width + count < g.size then .ok ([], p.push raw count h)
  else do
    let word ← p.fill raw count
    let (words, rest) ← pour (empty (Nat.zero_lt_of_lt p.width_lt)) raw (count - p.room)
    return (word :: words, rest)
termination_by count
decreasing_by
  have := p.room_pos
  simp only [room] at *
  omega

/-- The word filled up with zero bits; there is none if it has no bits. -/
def finish (p : PartialWord g) : Except BitsError (List Word) :=
  if p.width = 0 then .ok []
  else do
    return [← Word.make (p.value * 2 ^ p.room) g]

/-- The words of slices that go on in a word. -/
def pack (p : PartialWord g) : List Slice → Except BitsError (List Word)
  | [] => p.finish
  | s :: rest => do
    let (words, p) ← p.pour s.raw s.size
    return words ++ (← p.pack rest)

end PartialWord

/-- The words of a run of slices. Words of no bits hold nothing. -/
def packRun (slices : List Slice) (g : Geometry) : Except BitsError (List Word) :=
  if h : 0 < g.size then (PartialWord.empty h).pack slices else .ok []

end Retarget
