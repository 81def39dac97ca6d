import Retarget.Document.Yaml.Spot
import Retarget.Text.Digits

/-!
# Scalars

Scalars go over several lines. Between two words of a quoted or unquoted scalar a line break stands
for a blank, and of several breaks all but the first are kept (`Gap.text`). Block scalars keep their
breaks, or fold them as the header says. Each reader gives the text and how many spots it takes.
-/

namespace Retarget.Yaml

/-! ## White space inside scalars -/

/-- White space between two words of a scalar, last character first. -/
structure Gap where
  white : List Char := []
  /-- Whether an escaped break comes before it. -/
  joined : Bool := false
  deriving Repr

/-- What a gap stands for. -/
def Gap.text (g : Gap) : List Char :=
  let breaks := g.white.reverse.filter isBreak
  if g.joined then breaks
  else
    match breaks with
    | [] => g.white.reverse
    | ['\n'] => [' ']
    | '\n' :: more => more
    | _ => breaks

/-- Whether there is a line break in a gap. -/
def Gap.isBroken (g : Gap) : Bool := g.white.any isBreak

/-- Put a gap behind the text so far, which has its last character first. -/
def Gap.after (g : Gap) (done : List Char) : List Char := g.text.reverse ++ done

/-! ## Unquoted scalars -/

/-- Marks between brackets. -/
def isFlowMark (c : Char) : Bool := [',', '[', ']', '\x7b', '\x7d'].contains c

/-- A scalar, and how many spots it takes with the white space after it. -/
structure PlainScalar where
  text : List Char
  length : Nat
  /-- Whether a line ends after it. -/
  endsLine : Bool
  deriving Repr

/-- Read an unquoted scalar. `flow` if it stands between brackets; otherwise its lines are indented
more than `parent`. A comment, a document mark and a colon before white space end it. -/
def readPlain (flow : Bool) (parent : Int) (done : List Char) (gap : Gap) (length : Nat) :
    List Spot → Option PlainScalar
  | [] => some { text := done.reverse, length, endsLine := gap.isBroken }
  | s :: rest =>
    if isWhite s.char then
      -- A tab is no indentation.
      if s.char == '\t' && gap.isBroken && s.column ≤ parent then none
      else readPlain flow parent done { gap with white := s.char :: gap.white } (length + 1) rest
    else if !gap.white.isEmpty &&
        (s.char == '#' || (!flow && s.column ≤ parent) || (documentMark? (s :: rest)).isSome) ||
        s.char == ':' && startsWhite rest || flow && isFlowMark s.char then
      some { text := done.reverse, length, endsLine := gap.isBroken }
    else if flow && s.char == ':' && rest.head?.any fun n => isFlowMark n.char || n.char == '?' then
      none
    else readPlain flow parent (s.char :: gap.after done) {} (length + 1) rest

/-! ## Quoted scalars -/

/-- Read the rest of a scalar in single quotes, after the opening one. -/
def readSingle (done : List Char) (gap : Gap) (length : Nat) :
    List Spot → Option (List Char × Nat)
  | [] => none
  | ⟨'\'', _, _, _⟩ :: ⟨'\'', _, _, _⟩ :: rest =>
    readSingle ('\'' :: gap.after done) {} (length + 2) rest
  | s :: rest =>
    if s.char == '\'' then some ((gap.after done).reverse, length + 1)
    else if isWhite s.char then
      readSingle done { gap with white := s.char :: gap.white } (length + 1) rest
    else if (documentMark? (s :: rest)).isSome then none
    else readSingle (s.char :: gap.after done) {} (length + 1) rest

/-- The character of an escape of one letter. -/
def escape? : Char → Option Char
  | '0' => some (Char.ofNat 0)
  | 'a' => some (Char.ofNat 7)
  | 'b' => some (Char.ofNat 8)
  | 't' | '\t' => some '\t'
  | 'n' => some '\n'
  | 'v' => some (Char.ofNat 11)
  | 'f' => some (Char.ofNat 12)
  | 'r' => some '\r'
  | 'e' => some (Char.ofNat 27)
  | ' ' => some ' '
  | '"' => some '"'
  | '/' => some '/'
  | '\\' => some '\\'
  | 'N' => some (Char.ofNat 0x85)
  | '_' => some (Char.ofNat 0xA0)
  | 'L' => some (Char.ofNat 0x2028)
  | 'P' => some (Char.ofNat 0x2029)
  | _ => none

/-- The character with a number in base sixteen. -/
def charOfHex (digits : List Spot) : Option Char := do
  let n ← Text.readNat 16 (digits.map Spot.char)
  if n.isValidChar then some (Char.ofNat n) else none

/-- Read the rest of a scalar in double quotes, after the opening one. -/
def readDouble (done : List Char) (gap : Gap) (length : Nat) :
    List Spot → Option (List Char × Nat)
  | [] => none
  | ⟨'\\', _, _, _⟩ :: ⟨'x', _, _, _⟩ :: a :: b :: rest => do
    let c ← charOfHex [a, b]
    readDouble (c :: gap.after done) {} (length + 4) rest
  | ⟨'\\', _, _, _⟩ :: ⟨'u', _, _, _⟩ :: a :: b :: c :: d :: rest => do
    let c ← charOfHex [a, b, c, d]
    readDouble (c :: gap.after done) {} (length + 6) rest
  | ⟨'\\', _, _, _⟩ :: ⟨'U', _, _, _⟩ :: a :: b :: c :: d :: e :: f :: g :: h :: rest => do
    let c ← charOfHex [a, b, c, d, e, f, g, h]
    readDouble (c :: gap.after done) {} (length + 10) rest
  | ⟨'\\', _, _, _⟩ :: s :: rest =>
    if isBreak s.char then readDouble (gap.after done) { joined := true } (length + 2) rest
    else do
      let c ← escape? s.char
      readDouble (c :: gap.after done) {} (length + 2) rest
  | s :: rest =>
    if s.char == '"' then some ((gap.after done).reverse, length + 1)
    else if isWhite s.char then
      readDouble done { gap with white := s.char :: gap.white } (length + 1) rest
    else if s.char == '\\' || (documentMark? (s :: rest)).isSome then none
    else readDouble (s.char :: gap.after done) {} (length + 1) rest

/-! ## Block scalars -/

/-- What becomes of the breaks at the end of a block scalar. -/
inductive Chomp
  | strip
  /-- Keep the first. -/
  | clip
  | keep
  deriving DecidableEq, Repr

/-- The sign for a treatment of the last breaks. -/
def Chomp.ofChar? : Char → Option Chomp
  | '-' => some strip
  | '+' => some keep
  | _ => none

/-- What stands in the first line of a block scalar. -/
structure BlockHeader where
  chomp : Chomp
  /-- How much more than its parent the text is indented, if that is given. -/
  increment : Option Nat
  length : Nat
  deriving Repr

/-- Read what follows the mark of a block scalar in its line: a sign and a digit in either order. -/
def BlockHeader.read (spots : List Spot) : Option BlockHeader := do
  let sign (spots : List Spot) : Option Chomp := spots.head?.bind fun s => Chomp.ofChar? s.char
  let digit (spots : List Spot) : Option Char :=
    (spots.head?.map Spot.char).filter Text.isDigit
  let first := sign spots
  let rest := if first.isSome then spots.drop 1 else spots
  let given := digit rest
  let rest := if given.isSome then rest.drop 1 else rest
  let second := if first.isSome then none else sign rest
  let rest := if second.isSome then rest.drop 1 else rest
  if given == some '0' then
    none
  let n ← emptyLine? rest
  return {
    chomp := (first.or second).getD .clip
    increment := given.bind Text.digitValue
    length := [first.isSome, given.isSome, second.isSome].count true + n }

/-- The indentation of the first line with a text, or of an empty line before it that has more. -/
def leadingIndent (best : Nat) : List Spot → Option Nat
  | [] => some best
  | s :: rest =>
    if s.char == ' ' then leadingIndent best rest
    else if s.char == '\t' then none
    else if isBreak s.char then leadingIndent (max best s.column) rest
    else some (max best s.column)

/-- The lines of a block scalar that have been read. -/
structure BlockText where
  /-- The text without the breaks at its end, last character first. -/
  done : List Char := []
  /-- The break after the last line with a text. -/
  lead : List Char := []
  /-- The breaks of the empty lines after it, last first. -/
  trail : List Char := []
  /-- Whether the last line with a text starts with a blank. -/
  indented : Bool := false
  deriving Repr

/-- Start a line with a character. A single break between two lines of a folded text becomes a blank
unless one of them starts with a blank. -/
def BlockText.startLine (b : BlockText) (folded : Bool) (c : Char) : BlockText :=
  let lead :=
    if folded && b.lead == ['\n'] && !b.indented && !isSpace c then
      if b.trail.isEmpty then [' '] else []
    else b.lead
  { done := c :: (b.trail ++ lead ++ b.done), indented := isSpace c }

/-- The whole text. -/
def BlockText.text (b : BlockText) (chomp : Chomp) : List Char :=
  b.done.reverse ++ (if chomp = .strip then [] else b.lead) ++
    (if chomp = .keep then b.trail.reverse else [])

/-- Read the lines of a block scalar that are indented by `indent`; `inLine` if one has started. -/
def readLines (folded : Bool) (indent : Nat) (inLine : Bool) (b : BlockText) (length : Nat) :
    List Spot → Option (BlockText × Nat)
  | [] => some (b, length)
  | s :: rest =>
    if inLine then
      if isBreak s.char then
        readLines folded indent false { b with lead := [s.char] } (length + 1) rest
      else readLines folded indent true { b with done := s.char :: b.done } (length + 1) rest
    else if isBreak s.char then
      readLines folded indent false { b with trail := s.char :: b.trail } (length + 1) rest
    else if indent ≤ s.column then
      readLines folded indent true (b.startLine folded s.char) (length + 1) rest
    else if s.char == ' ' then readLines folded indent false b (length + 1) rest
    else if s.char == '\t' then none
    else some (b, length)

/-- Read a block scalar after its mark, inside a node that is indented by `parent`. -/
def readBlockScalar (folded : Bool) (parent : Int) (spots : List Spot) :
    Option (List Char × Nat) := do
  let header ← BlockHeader.read spots
  let body := spots.drop header.length
  let indent ←
    match header.increment with
    | some n => pure ((max parent 0).toNat + n)
    | none => do pure (max (← leadingIndent 0 body) (max (parent + 1) 1).toNat)
  let (b, n) ← readLines folded indent false {} 0 body
  return (b.text header.chomp, header.length + n)

end Retarget.Yaml
