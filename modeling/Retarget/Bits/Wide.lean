import Retarget.Bits.Word

/-!
# Values of several words

A value wider than a word is spread over several, which are handed out in one of the two orders.
-/

namespace Retarget

/-- A number spread over words. -/
structure Wide where
  value : Int
  wordSize : Nat
  order : Endian
  /-- The words, most significant first. -/
  words : List Word
  deriving DecidableEq

namespace Wide

/-- Spread a value over exactly `count` words, dropping the bits above them. A segment size that
does not divide the word size is replaced by the word size. -/
def ofCount (value : Int) (count : Nat) (g : Geometry) (order : Endian) :
    Except BitsError Wide := do
  if g.size = 0 then
    throw .noWordSize
  let segment := if g.segment ∣ g.size then g.segment else g.size
  let total := count * g.size
  if 128 < total then
    throw (.valueTooWide value total)
  let raw := (value % 2 ^ total).toNat
  let words ← (List.range count).mapM fun i =>
    Word.make (raw / 2 ^ ((count - 1 - i) * g.size) % 2 ^ g.size) { g with segment }
  return { value, wordSize := g.size, order, words }

/-- How many bits a value needs: those of its magnitude, one more for a minus sign, and at least
one. -/
def need (value : Int) : Nat :=
  max (Number.bitLength value + if value < 0 then 1 else 0) 1

/-- Spread a value over as many words as it needs. -/
def ofValue (value : Int) (g : Geometry) (order : Endian) : Except BitsError Wide :=
  ofCount value ((need value + max g.size 1 - 1) / max g.size 1) g order

/-- The words in the given order. -/
def arranged (v : Wide) (order : Endian) : List Word := order.arrange v.words

/-- The words in the value's own order. -/
def ordered (v : Wide) : List Word := v.arranged v.order

end Wide

end Retarget
