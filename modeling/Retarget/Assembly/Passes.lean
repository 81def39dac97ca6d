import Retarget.Assembly.Session
import Retarget.Statement.Placement

/-!
# The two passes

The first pass places every item at the cursor of its zone and gives labels their addresses. The
second one makes the words of all items and refuses those that share an address.
-/

namespace Retarget

/-- An item with its place. -/
structure PlacedItem where
  item : Item
  place : Placement
  deriving Repr

/-- An item with its place and its words. -/
structure CodedItem where
  item : Item
  place : Placement
  words : List Word

namespace CodedItem

/-- The address of an item. -/
def address (i : CodedItem) : Int := i.place.address

/-- The address after the last word. -/
def stop (i : CodedItem) : Int := i.place.address + i.place.wordCount

/-- Whether an item takes up space. -/
def hasWords (i : CodedItem) : Bool := 0 < i.place.wordCount

end CodedItem

namespace Session

/-! ## Placing -/

/-- Warn of a filling that fills nothing. -/
def warnBehind (s : Session) (i : Item) (cursor : Int) : Report Session := do
  match ← Report.ofExcept (i.targetBehind s.env cursor) with
  | some target =>
    let targetText := Number.hex target
    let cursorText := Number.hex cursor
    s.warn i.line
      s!".zerountil target 0x{targetText} is below the current address 0x{cursorText}"
  | none => return s

/-- Bind the label of a placed item. -/
def bindAddress (s : Session) (i : Item) (address : Int) : Except Error Session :=
  match i.addressLabel? with
  | some label => Error.liftAt i.line (s.bindLabel i.scope i.active label address i.line)
  | none => .ok s

/-- Place an item at the cursor of its zone. -/
def placeItem (s : Session) (i : Item) : Report (Session × PlacedItem) := do
  let cursor := (s.zones.get i.zone).cursor
  let (place, next) ← Report.ofExcept (i.place s.env cursor)
  let s ← s.warnBehind i cursor
  let zones ← Report.ofExcept (Error.liftAt i.line (s.zones.moveTo i.zone next))
  let s ← Report.ofExcept ({ s with zones }.bindAddress i place.address)
  return (s, { item := i, place })

/-- Place items one after the other. -/
def placeAll (s : Session) : List Item → Report (Session × List PlacedItem)
  | [] => pure (s, [])
  | i :: rest => do
    let (s, p) ← s.placeItem i
    let (s, ps) ← s.placeAll rest
    return (s, p :: ps)

/-- The item of a block of words that the instruction set defines. -/
def blockItem (s : Session) (b : DataBlock) : Item :=
  { line := SourceLine.synthetic s!"{s.isa.name} predefined data {b.name}", text := b.name,
    comment := "", zone := ZoneMap.globalId, scope := ScopeTree.globalId, active := [],
    compilable := true, muted := false,
    statement := .fill (Expression.literal b.size) (Expression.literal b.value) }

/-- Place the blocks that the instruction set defines, each at its address and with its label. -/
def placeBlocks (s : Session) : List DataBlock → Except Error (Session × List PlacedItem)
  | [] => .ok (s, [])
  | b :: rest => do
    let item := s.blockItem b
    let (place, _) ← item.place s.env b.address
    let scopes ← Error.liftAt item.line
      (s.scopes.bind ScopeTree.globalId b.name b.address item.line)
    let (s, ps) ← { s with scopes }.placeBlocks rest
    return (s, { item, place } :: ps)

/-! ## Coding -/

/-- Give warnings about a line. -/
def warnAll (s : Session) (line : SourceLine) : List String → Report Session
  | [] => pure s
  | text :: rest => do (← s.warn line text).warnAll line rest

/-- Make the words of items. -/
def codeAll (s : Session) : List PlacedItem → Report (Session × List CodedItem)
  | [] => pure (s, [])
  | p :: rest => do
    let (words, warnings) ← Report.ofExcept (p.item.words s.env (some p.place))
    let s ← s.warnAll p.item.line warnings
    let (s, cs) ← s.codeAll rest
    return (s, { item := p.item, place := p.place, words } :: cs)

end Session

/-- Refuse an item that starts before the one with words before it ends. The items are in the order
of their addresses. -/
def checkOverlaps (previous : Option CodedItem) : List CodedItem → Except Error Unit
  | [] => .ok ()
  | i :: rest =>
    if !i.hasWords then checkOverlaps previous rest
    else
      match previous.filter fun p => i.address < p.stop with
      | some p => Error.failAt i.item.line (ProgramError.overlap p.item.line i.address)
      | none => checkOverlaps (some i) rest

namespace Session

/-- Make the words of items in the order of their addresses, and refuse overlaps. -/
def code (s : Session) (items : List PlacedItem) : Report (Session × List CodedItem) := do
  let (s, coded) ← s.codeAll items
  Report.ofExcept (checkOverlaps none coded)
  return (s, coded)

end Session

end Retarget
