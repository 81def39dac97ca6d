import Retarget.Statement.Data

/-!
# Placing and encoding statements

A statement first gets an address and a size, which need only the labels before it; its words are
made when all labels are known.
-/

namespace Retarget

/-- Where a statement is and how many words it takes. -/
structure Placement where
  address : Int
  wordCount : Nat
  deriving DecidableEq, Repr

namespace Item

/-- The labels that the statement sees. -/
def labels (i : Item) (env : Environment) : Labels := env.labels i.scope i.active

/-- The value of an expression of the statement. -/
def eval (i : Item) (env : Environment) (e : Expression) : Except Error Int :=
  Error.liftAt i.line (e.eval (i.labels env))

/-- The label that gets the address of the statement. -/
def addressLabel? (i : Item) : Option String :=
  match i.statement with
  | .label name => some name
  | _ => none

/-- The next multiple of a page size, from a cursor on. -/
def nextPage (cursor page : Int) : Int :=
  if cursor % page = 0 then cursor else cursor + page - cursor % page

/-- The address that an origin names. -/
def originAddress (i : Item) (env : Environment) (offset : Expression) (zone : Option String) :
    Except Error Int := do
  let offset ← i.eval env offset
  let address := if zone.isSome then (env.zones.get i.zone).first + offset else offset
  let space := env.zones.global
  if space.contains address then return address
  else Error.failAt i.line (PlacementError.originOutside address space.first space.last)

/-- The size of the pages that an alignment goes by. -/
def pageSize (i : Item) (env : Environment) : Option Expression → Except Error Int
  | some e => i.eval env e
  | none => .ok env.isa.pageSize

/-- The address of the next page. -/
def pageAddress (i : Item) (env : Environment) (cursor : Int) (page : Option Expression) :
    Except Error Int := do
  let page ← i.pageSize env page
  if page < 1 then Error.failAt i.line (PlacementError.pageSize page)
  else return nextPage cursor page

/-- How many words a filling has. -/
def fillCount (i : Item) (env : Environment) (count : Expression) : Except Error Int := do
  let count ← i.eval env count
  if count < 0 then Error.failAt i.line (PlacementError.negativeFill count)
  else return count

/-- The address and the size of the statement when the cursor of its zone is at `cursor`. Sizes are
integers of any size: one that is no 128-bit number, such as that of a filling from address zero up
to the greatest number, leads out of every zone and is refused for that. -/
def extent (i : Item) (env : Environment) (cursor : Int) : Except Error (Int × Int) := do
  match i.statement with
  | .org offset zone => return (← i.originAddress env offset zone, 0)
  | .align page => return (← i.pageAddress env cursor page, 0)
  | .fill count _ => return (cursor, ← i.fillCount env count)
  | .fillUntil target _ =>
    let target ← i.eval env target
    return (cursor, if cursor ≤ target then target - cursor + 1 else 0)
  | .instruction e => return (cursor, e.wordCount)
  | .data d => return (cursor, d.wordCount env.isa)
  | .plain | .label _ | .constant .. | .setZone _ => return (cursor, 0)

/-- How many words are reserved for a size. The size of a filling is a number of the language, cut
down to 64 bits; the others are counts. -/
def reserve (i : Item) (size : Int) : Nat :=
  match i.statement with
  | .fill .. | .fillUntil .. => (size % 2 ^ (64 : Nat)).toNat
  | _ => size.toNat

/-- Place the statement, and give the cursor after it. -/
def place (i : Item) (env : Environment) (cursor : Int) : Except Error (Placement × Int) := do
  let (address, size) ← i.extent env cursor
  return ({ address, wordCount := i.reserve size }, address + size)

/-- The target of a filling that lies behind the word before the cursor, so that nothing is
filled. -/
def targetBehind (i : Item) (env : Environment) (cursor : Int) : Except Error (Option Int) := do
  match i.statement with
  | .fillUntil target _ =>
    let target ← i.eval env target
    return if target + 1 < cursor then some target else none
  | _ => return none

/-- The words of the statement at its place, and its warnings. -/
def wordsAt (i : Item) (env : Environment) (p : Placement) :
    Except Error (List Word × List String) := do
  match i.statement with
  | .instruction e =>
    let site : Site :=
      { labels := i.labels env, zones := env.zones, address := p.address, size := p.wordCount }
    return (← e.words site env.isa.geometry, [])
  | .data d => d.words env.isa (i.labels env) i.line
  | .fill _ value | .fillUntil _ value =>
    let v ← i.eval env value
    let low := Number.bits v % 2 ^ min env.isa.wordSize 128
    let word ← Error.liftAt i.line (Word.make low env.isa.geometry)
    return (List.replicate p.wordCount word, [])
  | _ => return ([], [])

/-- The words of the statement, and its warnings. They are as many as its place reserves. -/
def words (i : Item) (env : Environment) (p : Option Placement) :
    Except Error (List Word × List String) := do
  match p with
  | none => Error.failAt i.line PlacementError.unplaced
  | some p =>
    let (words, warnings) ← i.wordsAt env p
    if words.length = p.wordCount then return (words, warnings)
    else Error.failAt i.line (PlacementError.wordCount words.length p.wordCount)

end Item

end Retarget
