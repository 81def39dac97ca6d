import Retarget.Bits.Run
import Retarget.Field.Basic

/-!
# Layout of fields

Consecutive fields that are not aligned share words: their patterns stand side by side, and the last
word is filled up with zero bits. An aligned field ends such a run and takes whole words of its own.
How many words that makes depends on the widths only (`wordCount`), so it is known before any label
is. The bits of a run are counted in 32 bits.
-/

namespace Retarget

/-- How many words of `wordSize` bits hold `bits` bits. -/
def wordsFor (wordSize bits : Nat) : Nat := Counter.add bits (wordSize - 1) / wordSize

/-- How many words fields take, after `pending` bits that wait for a word. -/
def wordCountFrom (wordSize : Nat) (pending : Nat) : List Field → Nat
  | [] => wordsFor wordSize pending
  | f :: rest =>
    if f.shape.aligned then
      wordsFor wordSize pending + wordsFor wordSize f.size + wordCountFrom wordSize 0 rest
    else wordCountFrom wordSize (Counter.add pending f.size) rest

/-- How many words fields take. -/
def wordCount (wordSize : Nat) (fields : List Field) : Nat := wordCountFrom wordSize 0 fields

/-- The words of an aligned field with the given slice. -/
def alignedWords (shape : Shape) (s : Slice) (g : Geometry) : Except BitsError (List Word) :=
  let count := wordsFor g.size shape.size
  if count = 0 then .ok []
  else do
    let v ← Wide.ofCount s.raw count { g with order := shape.segmentOrder } shape.wordOrder
    return v.ordered

/-- The words of fields after a run of slices that wait for a word. -/
def layoutFrom (site : Site) (g : Geometry) (pending : List Slice) :
    List Field → Except Error (List Word)
  | [] => Error.lift (packRun pending g)
  | f :: rest => do
    let s ← f.slice site
    if f.shape.aligned then
      let before ← Error.lift (packRun pending g)
      let own ← Error.liftAt f.shape.line (alignedWords f.shape s g)
      let after ← layoutFrom site g [] rest
      return before ++ own ++ after
    else layoutFrom site g (pending ++ [s]) rest

/-- The words of fields. -/
def layout (site : Site) (g : Geometry) (fields : List Field) : Except Error (List Word) :=
  layoutFrom site g [] fields

/-- How many bits fields take when they are packed back to back after `bits` bits, aligned ones from
a byte boundary on. -/
def packedBitsFrom (bits : Nat) : List Field → Nat
  | [] => bits
  | f :: rest =>
    let start := if f.shape.aligned then (bits + 7) / 8 * 8 else bits
    packedBitsFrom (start + f.size) rest

/-- The fields of an instruction, or of an expanded macro. -/
structure Encoding where
  line : SourceLine
  fields : List Field
  wordSize : Nat
  deriving Repr

namespace Encoding

/-- Several instructions, one after the other, as one. -/
def concat (line : SourceLine) (steps : List Encoding) (wordSize : Nat) : Encoding :=
  { line, fields := steps.flatMap fields, wordSize }

/-- Size in words. -/
def wordCount (e : Encoding) : Nat := Retarget.wordCount e.wordSize e.fields

/-- Size in bytes when the fields are packed back to back. -/
def byteSize (e : Encoding) : Nat := (packedBitsFrom 0 e.fields + 7) / 8

/-- All leaves, in order. -/
def leaves (e : Encoding) : List Field := Field.leavesOfParts e.fields

/-- The words of an instruction. -/
def words (e : Encoding) (site : Site) (g : Geometry) : Except Error (List Word) :=
  Error.attach e.line (layout site g e.fields)

end Encoding

end Retarget
