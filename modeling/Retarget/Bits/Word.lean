import Retarget.Bits.Counter
import Retarget.Bits.Endian
import Retarget.Bits.Slice

/-!
# Words

A word is the unit of storage of the target. It is divided into segments of equal size, and the
order inside the word says in which order the segments are written out.
-/

namespace Retarget

/-- Geometry of a word: its width, the width of its segments and their order. -/
structure Geometry where
  size : Nat
  segment : Nat
  order : Endian
  deriving DecidableEq, Repr

/-- One word of the target. -/
structure Word where
  value : Nat
  geometry : Geometry
  size_pos : 0 < geometry.size
  size_le : geometry.size ≤ 128
  segment_dvd : geometry.segment ∣ geometry.size
  value_lt : value < 2 ^ geometry.size
  deriving DecidableEq

namespace Word

/-- A word of the given geometry, or what is wrong with the geometry or the value. -/
def make (value : Nat) (g : Geometry) : Except BitsError Word :=
  if hs : 0 < g.size ∧ g.size ≤ 128 then
    if hd : g.segment ∣ g.size then
      if hv : value < 2 ^ g.size then
        .ok { value, geometry := g, size_pos := hs.1, size_le := hs.2, segment_dvd := hd,
              value_lt := hv }
      else .error (.wordOverflow value g.size)
    else .error (.segmentSize g.segment g.size)
  else .error (.wordSize g.size)

/-- The pattern of a slice moved up by `shift` bits in a 128-bit number. A shift by 128 is one by
none again. -/
def rawAt (s : Slice) (shift : Nat) : Nat := s.raw <<< (shift % 128) % 2 ^ (128 : Nat)

/-- Put the patterns of slices side by side, the first one most significant, below the `room` bits
that are left in the word. A slice of no bits adds none. -/
def join : List Slice → Nat → Nat
  | [], _ => 0
  | s :: rest, room =>
    let room := Counter.sub room s.size
    (if s.size = 0 then 0 else rawAt s room) ||| join rest room

/-- The segments, most significant first. -/
def segments (w : Word) : List Nat :=
  let count := w.geometry.size / w.geometry.segment
  (List.range count).map fun i =>
    w.value / 2 ^ ((count - 1 - i) * w.geometry.segment) % 2 ^ w.geometry.segment

/-- The segments in the order in which they are written out. -/
def orderedSegments (w : Word) : List Nat := w.geometry.order.arrange w.segments

end Word

end Retarget
