import Retarget.Statement.Basic
import Retarget.Text.Escape

/-!
# Data statements

Values, quoted texts and texts with a terminator. A value wider than a word is spread over several;
if the instruction set packs texts, several characters share a word.
-/

namespace Retarget.DataLine

/-! ## Reading -/

/-- How many bytes a value of a data directive has. -/
def valueBytes? : String → Option Nat
  | "byte" | "cstr" | "asciiz" => some 1
  | "2byte" => some 2
  | "4byte" => some 4
  | "8byte" => some 8
  | _ => none

/-- Whether a directive ends its texts with the terminator. -/
def isTerminated (directive : String) : Bool := directive == "cstr" || directive == "asciiz"

/-- The characters of a quoted argument; none if it is something else. One character in single
quotes is a number. -/
def quotedChars (cs : List Char) : Option (List Char) :=
  match Text.trim cs with
  | quote :: rest =>
    if Text.isQuote quote && rest.getLast? == some quote then
      let body := Text.unescapeChars rest.dropLast
      if quote == '\'' && body.length == 1 then none else some body
    else none
  | [] => none

/-- The items of the arguments of a directive. -/
def readItems (directive : String) (line : SourceLine) :
    List (List Char) → Except Error (List DataItem)
  | [] => .ok []
  | arg :: rest => do
    match quotedChars arg with
    | some cs =>
      let own := cs.map fun c => DataItem.char c.toNat
      let ending := if isTerminated directive then [DataItem.terminator] else []
      return own ++ ending ++ (← readItems directive line rest)
    | none =>
      if isTerminated directive then
        Error.failAt line (StatementError.onlyStrings directive (String.ofList arg))
      else
        let e ← Error.liftAt line (Expression.parse (String.ofList arg))
        return .value e :: (← readItems directive line rest)

/-- Read a data directive whose values have the given count of bytes. -/
def read (isa : Isa) (directive : String) (bytes : Nat) (args : List Char) (line : SourceLine) :
    Except Error DataLine := do
  let args := Text.splitOperands args
  if args.isEmpty || args.any List.isEmpty then
    Error.failAt line (StatementError.noValues directive)
  let items ← readItems directive line args
  let onlyTexts := args.all fun a => (quotedChars a).isSome
  return { name := s!".{directive}", valueBits := bytes * 8, items,
           packed := isa.packing && onlyTexts && bytes == 1 }

/-- Read a quoted text that stands alone; none if it is something else. -/
def ofText? (isa : Isa) (cs : List Char) : Option DataLine :=
  (quotedChars cs).map fun body =>
    { name := "embedded string", valueBits := 8,
      items := body.map (fun c => DataItem.char c.toNat) ++ [.terminator], packed := isa.packing }

/-! ## Sizes -/

/-- How many words a value takes. -/
def wordsPerValue (isa : Isa) (d : DataLine) : Nat :=
  if d.valueBits ≤ isa.wordSize then 1 else wordsFor isa.wordSize d.valueBits

/-- How many packed characters a word holds. -/
def charsPerWord (isa : Isa) : Nat := max (isa.wordSize / 8) 1

/-- How many words a data statement takes. -/
def wordCount (isa : Isa) (d : DataLine) : Nat :=
  if d.packed then (d.items.length + charsPerWord isa - 1) / charsPerWord isa
  else d.items.length * d.wordsPerValue isa

/-! ## Words -/

/-- The words of one value of `valueBits` bits. -/
def valueWords (isa : Isa) (d : DataLine) (value : Nat) : Except BitsError (List Word) :=
  if d.wordsPerValue isa = 1 then do
    return [← Word.make value isa.geometry]
  else do
    return (← Wide.ofCount value (d.wordsPerValue isa) isa.geometry isa.wordOrder).ordered

/-- The value of an item, cut down to its width, and the warning if that changes it. -/
def itemValue (isa : Isa) (d : DataLine) (labels : Labels) :
    DataItem → Except ExprError (Nat × List String)
  | .value e => do
    let v ← e.eval labels
    let cut := v % 2 ^ d.valueBits
    let warnings := if cut = v then [] else [s!"Data value {v} truncated to {cut} for {d.name}"]
    return (cut.toNat, warnings)
  | .char c => .ok (c % 2 ^ d.valueBits, [])
  | .terminator => .ok ((isa.terminator % 2 ^ d.valueBits).toNat, [])

/-- The words of items, one after the other, and their warnings. -/
def itemsWords (isa : Isa) (d : DataLine) (labels : Labels) (line : SourceLine) :
    List DataItem → Except Error (List Word × List String)
  | [] => .ok ([], [])
  | item :: rest => do
    let (v, warnings) ← Error.liftAt line (d.itemValue isa labels item)
    let words ← Error.liftAt line (d.valueWords isa v)
    let (moreWords, moreWarnings) ← itemsWords isa d labels line rest
    return (words ++ moreWords, warnings ++ moreWarnings)

/-- The byte of an item in a packed text. -/
def packedByte (isa : Isa) : DataItem → Nat
  | .char c => c % 256
  | .terminator => (isa.terminator % 256).toNat
  | .value _ => 0

/-- The number with the given bytes, the first one most significant. -/
def joinBytes (bytes : List Nat) : Nat := bytes.foldl (fun acc b => acc * 256 + b) 0

theorem charsPerWord_pos (isa : Isa) : 0 < charsPerWord isa := Nat.le_max_right _ _

/-- The word of the bytes that stand in it, filled up if they are too few. -/
def packWord (isa : Isa) (chunk : List Nat) : Except BitsError Word :=
  let full := chunk ++ List.replicate (charsPerWord isa - chunk.length) isa.packingFill.toNat
  Word.make (joinBytes (isa.wordOrder.arrange full)) isa.geometry

/-- The words of bytes, as many in each as it holds. -/
def packBytes (isa : Isa) (bytes : List Nat) : Except BitsError (List Word) :=
  if bytes.isEmpty then .ok []
  else do
    let word ← packWord isa (bytes.take (charsPerWord isa))
    return word :: (← packBytes isa (bytes.drop (charsPerWord isa)))
termination_by bytes.length
decreasing_by
  have hsize := charsPerWord_pos isa
  have hbytes := List.length_pos_iff.mpr (show bytes ≠ [] by simp_all)
  rw [List.length_drop]
  omega

/-- The words of a data statement, and its warnings. -/
def words (isa : Isa) (d : DataLine) (labels : Labels) (line : SourceLine) :
    Except Error (List Word × List String) :=
  if d.packed then do
    return (← Error.lift (packBytes isa (d.items.map (packedByte isa))), [])
  else itemsWords isa d labels line d.items

end Retarget.DataLine
