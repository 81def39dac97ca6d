import Retarget.Document.Basic
import Retarget.Document.Yaml.Scalar

/-!
# Tokens of YAML

`scan` cuts a text into tokens. Indentation becomes tokens of its own: where the column grows a
block opens, and where it shrinks blocks end. A key is known only by the colon after it, so the
place where one may have started is kept (`KeyPlace`), and the tokens that open a key go in there
later. A key lies in one line and takes at most 1024 bytes.
-/

namespace Retarget.Yaml

/-- The tokens of YAML. -/
inductive Token
  | scalar (d : Document)
  | anchor (name : String)
  /-- A node that has been given a name by an anchor. -/
  | reference (name : String)
  | tag (handle suffix : String)
  /-- Brackets and commas of flow lists and flow maps. -/
  | openList
  | closeList
  | openMap
  | closeMap
  | comma
  /-- The start of a block list or a block map, and the end of either. -/
  | blockList
  | blockMap
  | blockEnd
  /-- The mark of a list item. -/
  | item
  /-- A key, or a value, follows. -/
  | key
  | value
  | documentStart
  | documentEnd
  | version (major minor : Nat)
  /-- A handle for tags, and how the tags start that it stands for. -/
  | handle (name lead : String)
  deriving Repr

/-! ## Names -/

/-- The characters of anchors, handles and directives. -/
def isAnchorChar (c : Char) : Bool := Text.isNameChar c || c == '-'

/-- Read the name of an anchor or a reference. -/
def readAnchor (spots : List Spot) : Option String :=
  let name := (spots.map Spot.char).takeWhile isAnchorChar
  let ends := startsWhite (spots.drop name.length) ||
    (spots.drop name.length).head?.any fun s =>
      ['?', ':', ',', ']', '\x7d', '%', '@', Char.ofNat 0x60].contains s.char
  if name.isEmpty || !ends then none else some (String.ofList name)

/-- The characters of tags. Flow marks are among them only where `marks`. -/
def isTagChar (marks : Bool) (c : Char) : Bool :=
  isAnchorChar c || ";/?:@&=+$.!~*'()%".toList.contains c || marks && ",[]".toList.contains c

/-- Read the characters of a tag, some of which may be escaped by their numbers. -/
def readTagText (marks : Bool) (done : List Char) (length : Nat) :
    List Spot → Option (List Char × Nat)
  | ⟨'%', _, _, _⟩ :: a :: b :: rest => do
    let n ← Text.readNat 16 [a.char, b.char]
    if n < 0x80 then readTagText marks (Char.ofNat n :: done) (length + 3) rest else none
  | s :: rest =>
    if s.char == '%' then none
    else if isTagChar marks s.char then readTagText marks (s.char :: done) (length + 1) rest
    else some (done.reverse, length)
  | [] => some (done.reverse, length)

/-- Read a handle of tags: an exclamation mark, or a name between two. -/
def readHandle (spots : List Spot) : Option (List Char) :=
  match spots.map Spot.char with
  | '!' :: cs =>
    let name := cs.takeWhile isAnchorChar
    some ('!' :: name ++ (if (cs.drop name.length).head? == some '!' then ['!'] else []))
  | _ => none

/-- Read a tag after its exclamation mark, and count its spots. -/
def readTag (spot : Spot) (rest : List Spot) : Option (Token × Nat) := do
  match rest with
  | ⟨'<', _, _, _⟩ :: more =>
    let (name, n) ← readTagText true [] 0 more
    if name.isEmpty || !(more.drop n).head?.any fun s => s.char == '>' then none
    else some (.tag "" (String.ofList name), n + 2)
  | _ =>
    let handle ← readHandle (spot :: rest)
    if 1 < handle.length && handle.getLast? == some '!' then
      let (suffix, n) ← readTagText false [] 0 (rest.drop (handle.length - 1))
      if suffix.isEmpty then none
      else some (.tag (String.ofList handle) (String.ofList suffix), handle.length - 1 + n)
    else
      let (suffix, n) ← readTagText false [] 0 rest
      if suffix.isEmpty then some (.tag "" "!", n)
      else some (.tag "!" (String.ofList suffix), n)

/-! ## Directives -/

/-- Read a number of a version. -/
def readVersionNumber (cs : List Char) : Option (Nat × List Char) := do
  let digits := cs.takeWhile Text.isDigit
  if 9 < digits.length then
    none
  return (← Text.readNat 10 digits, cs.drop digits.length)

/-- Read the numbers of a version, and count their characters. -/
def readVersion (cs : List Char) : Option (Token × Nat) := do
  let (major, rest) ← readVersionNumber cs
  match rest with
  | '.' :: rest =>
    let (minor, rest) ← readVersionNumber rest
    return (.version major minor, cs.length - rest.length)
  | _ => none

/-- Read a handle and how its tags start, and count their spots. -/
def readHandleDirective (spots : List Spot) : Option (Token × Nat) := do
  let handle ← readHandle spots
  if handle != ['!'] && handle.getLast? != some '!' then
    none
  let rest := spots.drop handle.length
  let blanks := rest.takeWhile fun s => isSpace s.char
  let rest := rest.drop blanks.length
  let (lead, n) ← readTagText true [] 0 rest
  if blanks.isEmpty || lead.isEmpty || !startsWhite (rest.drop n) then none
  else some (.handle (String.ofList handle) (String.ofList lead), handle.length + blanks.length + n)

/-- Read a directive after its percent sign, and count its spots up to the end of the line. -/
def readDirective (spots : List Spot) : Option (Token × Nat) := do
  let name := (spots.map Spot.char).takeWhile isAnchorChar
  let rest := spots.drop name.length
  let blanks := rest.takeWhile fun s => isSpace s.char
  if blanks.isEmpty then
    none
  let rest := rest.drop blanks.length
  let (t, n) ←
    match String.ofList name with
    | "YAML" => readVersion (rest.map Spot.char)
    | "TAG" => readHandleDirective rest
    | _ => none
  let line ← emptyLine? (rest.drop n)
  return (t, name.length + blanks.length + n + line)

/-! ## Scanning -/

/-- Where a key may have started. -/
structure KeyPlace where
  /-- How many tokens there are before it. -/
  position : Nat
  line : Nat
  column : Nat
  offset : Nat
  /-- Whether nothing but a key can stand there. -/
  required : Bool
  deriving Repr

/-- How many bytes a key may take. -/
def maxKeyLength : Nat := 1024

/-- Whether a place is too far back for a key that ends at `spot`. -/
def KeyPlace.isPast (k : KeyPlace) (spot : Spot) : Bool :=
  k.line < spot.line || k.offset + maxKeyLength < spot.offset

/-- Where the scan of a text stands. -/
structure Scan where
  /-- The tokens so far, last first. -/
  tokens : List Token := []
  /-- How many tokens there are. -/
  count : Nat := 0
  /-- The column of the innermost block. -/
  indent : Int := -1
  /-- The columns of the blocks around it, innermost first. -/
  outer : List Int := []
  /-- Where a key may have started. -/
  key : Option KeyPlace := none
  /-- For each open bracket, where a key may have started that it belongs to. -/
  brackets : List (Option KeyPlace) := []
  /-- Whether a key may start here. -/
  keyAllowed : Bool := true
  /-- Whether a comment has started in this line. -/
  comment : Bool := false
  deriving Repr

namespace Scan

/-- Whether a bracket is open. -/
def inFlow (s : Scan) : Bool := !s.brackets.isEmpty

/-- Append a token. -/
def emit (s : Scan) (t : Token) : Scan := { s with tokens := t :: s.tokens, count := s.count + 1 }

/-- Put a token behind the first `position` tokens. -/
def insert (s : Scan) (position : Nat) (t : Token) : Scan :=
  let later := s.count - position
  { s with
    tokens := s.tokens.take later ++ t :: s.tokens.drop later
    count := s.count + 1 }

/-- Give up the place of a key; none if a key is required there. -/
def dropKey (s : Scan) : Option Scan :=
  if s.key.any KeyPlace.required then none else some { s with key := none }

/-- Keep a spot as the place of a key, if one may start there. -/
def saveKey (s : Scan) (spot : Spot) : Option Scan :=
  if s.keyAllowed then do
    let s ← s.dropKey
    return { s with
      key := some {
        position := s.count
        line := spot.line
        column := spot.column
        offset := spot.offset
        required := !s.inFlow && s.indent == (spot.column : Int) } }
  else some s

/-- Give up the place of a key if it is too far back. -/
def expireKey (s : Scan) (spot : Spot) : Option Scan :=
  if s.key.any fun k => k.isPast spot then s.dropKey else some s

/-- Open a block at a column if it is further in. Its token goes behind the first `position`. -/
def openBlock (s : Scan) (column position : Nat) (t : Token) : Scan :=
  if !s.inFlow && s.indent < column then
    { s with indent := column, outer := s.indent :: s.outer }.insert position t
  else s

/-- End the blocks that are further in than a column, where `outer` are those around this one. -/
def closeBlocksFrom (s : Scan) (column : Int) : List Int → Scan
  | [] => s
  | i :: outer =>
    if column < s.indent then
      closeBlocksFrom ({ s with indent := i, outer }.emit .blockEnd) column outer
    else s

/-- End the blocks that are further in than a column. -/
def closeBlocks (s : Scan) (column : Int) : Scan :=
  if s.inFlow then s else s.closeBlocksFrom column s.outer

/-! ### White space -/

/-- Whether a spot is white space or part of a comment. A tab is not where a block may start. -/
def skips (s : Scan) (spot : Spot) : Bool :=
  s.comment || isBreak spot.char || spot.char == ' ' || spot.char == '#' ||
    (spot.char == '\t' && (s.inFlow || !s.keyAllowed)) ||
    -- A mark for the order of bytes at the start of a line.
    (spot.char == Char.ofNat 0xFEFF && spot.column == 0)

/-- Go past a spot that is skipped. -/
def skip (s : Scan) (spot : Spot) : Scan :=
  if isBreak spot.char then { s with comment := false, keyAllowed := s.keyAllowed || !s.inFlow }
  else if spot.char == '#' then { s with comment := true }
  else s

/-! ### Tokens -/

/-- End all blocks, as a document mark, a directive and the end of the text do. -/
def closeAll (s : Scan) : Option Scan := do
  let s ← (s.closeBlocks (-1)).dropKey
  return { s with keyAllowed := false }

/-- Read an opening bracket. -/
def openBracket (s : Scan) (spot : Spot) (t : Token) : Option Scan := do
  let s ← s.saveKey spot
  return { s with key := none, brackets := s.key :: s.brackets, keyAllowed := true }.emit t

/-- Read a closing bracket. -/
def closeBracket (s : Scan) (t : Token) : Option Scan := do
  let s ← s.dropKey
  let s := { s with keyAllowed := false }
  match s.brackets with
  | [] => return s.emit t
  | k :: brackets => return { s with key := k, brackets }.emit t

/-- Read the mark of an item, or the one of a key that may be of any kind. -/
def openEntry (s : Scan) (spot : Spot) (block mark : Token) (keyAllowed : Bool) : Option Scan := do
  if !s.inFlow && !s.keyAllowed then
    none
  let s ← (s.openBlock spot.column s.count block).dropKey
  return { s with keyAllowed }.emit mark

/-- Read a colon. -/
def openValue (s : Scan) (spot : Spot) : Option Scan :=
  match s.key with
  | some k =>
    let s := (s.insert k.position .key).openBlock k.column k.position .blockMap
    some ({ s with key := none, keyAllowed := false }.emit .value)
  | none =>
    if !s.inFlow && !s.keyAllowed then none
    else
      let s := s.openBlock spot.column s.count .blockMap
      some ({ s with keyAllowed := !s.inFlow }.emit .value)

/-- Read a token that may start a key. -/
def start (s : Scan) (spot : Spot) (t : Token) : Option Scan := do
  let s ← s.saveKey spot
  return { s with keyAllowed := false }.emit t

/-- Read an unquoted scalar, and count the spots after its first. -/
def plain (s : Scan) (spot : Spot) (rest : List Spot) : Option (Scan × Nat) := do
  let p ← readPlain s.inFlow s.indent [] {} 0 (spot :: rest)
  let s ← s.start spot (.scalar (.plain (String.ofList p.text)))
  return ({ s with keyAllowed := p.endsLine }, p.length - 1)

/-- Read a quoted scalar. -/
def quoted (s : Scan) (spot : Spot) (scalar : Option (List Char × Nat)) : Option (Scan × Nat) := do
  let (text, n) ← scalar
  return (← s.start spot (.scalar (.text (String.ofList text))), n)

/-- Read a block scalar. -/
def blockScalar (s : Scan) (folded : Bool) (rest : List Spot) : Option (Scan × Nat) := do
  if s.inFlow then
    none
  let s ← s.dropKey
  let (text, n) ← readBlockScalar folded s.indent rest
  return ({ s with keyAllowed := true }.emit (.scalar (.text (String.ofList text))), n)

/-- Read a tag. White space has to follow it, or a comma between brackets. -/
def tag (s : Scan) (spot : Spot) (rest : List Spot) : Option (Scan × Nat) := do
  let (t, n) ← readTag spot rest
  let after := rest.drop n
  if startsWhite after || (s.inFlow && after.head?.any fun s => s.char == ',') then
    return (← s.start spot t, n)
  else none

/-- Read the token that starts at a spot, and count the spots after its first. -/
def token (s : Scan) (spot : Spot) (rest : List Spot) : Option (Scan × Nat) :=
  let one (s : Option Scan) : Option (Scan × Nat) := s.map fun s => (s, 0)
  match spot.char with
  | '[' => one (s.openBracket spot .openList)
  | '\x7b' => one (s.openBracket spot .openMap)
  | ']' => one (s.closeBracket .closeList)
  | '\x7d' => one (s.closeBracket .closeMap)
  | ',' => one (s.dropKey.map fun s => { s with keyAllowed := true }.emit .comma)
  | '-' =>
    if startsWhite rest then one (s.openEntry spot .blockList .item true) else s.plain spot rest
  | '?' =>
    if s.inFlow || startsWhite rest then one (s.openEntry spot .blockMap .key (!s.inFlow))
    else s.plain spot rest
  | ':' => if s.inFlow || startsWhite rest then one (s.openValue spot) else s.plain spot rest
  | '&' => do
    let name ← readAnchor rest
    return (← s.start spot (.anchor name), name.length)
  | '*' => do
    let name ← readAnchor rest
    return (← s.start spot (.reference name), name.length)
  | '!' => s.tag spot rest
  | '|' => s.blockScalar false rest
  | '>' => s.blockScalar true rest
  | '\'' => s.quoted spot (readSingle [] {} 0 rest)
  | '"' => s.quoted spot (readDouble [] {} 0 rest)
  | c =>
    if isWhite c || ['%', '@', Char.ofNat 0x60].contains c then none else s.plain spot rest

/-- Read the next token, after blocks have ended as its column says. -/
def step (s : Scan) (spot : Spot) (rest : List Spot) : Option (Scan × Nat) := do
  let s ← s.expireKey spot
  let s := s.closeBlocks spot.column
  if spot.char == '%' && spot.column == 0 then
    let (t, n) ← readDirective rest
    return ((← s.closeAll).emit t, n)
  match documentMark? (spot :: rest) with
  | some c =>
    return ((← s.closeAll).emit (if c == '-' then .documentStart else .documentEnd), 2)
  | none => s.token spot rest

/-- All tokens, once the text has ended. -/
def finish (s : Scan) : Option (List Token) := s.closeAll.map fun s => s.tokens.reverse

/-- Scan the rest of a text. -/
def run (s : Scan) (spots : List Spot) : Option (List Token) :=
  match spots with
  | [] => s.finish
  | spot :: rest =>
    if s.skips spot then (s.skip spot).run rest
    else
      match s.step spot rest with
      | none => none
      | some (s, n) => s.run (rest.drop n)
termination_by spots.length
decreasing_by all_goals simp; try omega

end Scan

/-- The tokens of a text. -/
def scan (cs : List Char) : Option (List Token) := (spots? cs).bind ({} : Scan).run

end Retarget.Yaml
