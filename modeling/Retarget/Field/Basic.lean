import Retarget.Bits.Wide
import Retarget.Error
import Retarget.Expr.Parser
import Retarget.Zone.Basic

/-!
# Fields of instructions

An encoded instruction is a list of fields. A leaf takes its value from a literal or an expression,
with a check of its own; a group packs the patterns of its parts into one field, the first part most
significant. The width of a field is known when it is made, its value only when all labels are.
-/

namespace Retarget

/-- A table from numbers to numbers, in increasing order of the keys. -/
abbrev NumberTable := List (Int × Int)

namespace NumberTable

/-- Add an entry, in place of an older one with the same key. -/
def insert (key value : Int) : NumberTable → NumberTable
  | [] => [(key, value)]
  | (k, v) :: rest =>
    if key < k then (key, value) :: (k, v) :: rest
    else if key = k then (key, value) :: rest
    else (k, v) :: insert key value rest

/-- The table of a list of entries, of which the later ones win. -/
def ofList (entries : List (Int × Int)) : NumberTable :=
  entries.foldl (fun t e => insert e.1 e.2 t) []

end NumberTable

/-- Width, placement and orders of a field, and the line it stands on. -/
structure Shape where
  /-- Width in bits. -/
  size : Nat
  /-- Whether the field starts a new word. -/
  aligned : Bool
  /-- Order of the words of an aligned field. -/
  wordOrder : Endian
  /-- Order of the segments in the words of an aligned field. -/
  segmentOrder : Endian
  line : SourceLine
  deriving DecidableEq, Repr

/-- Where the value of a leaf comes from. -/
inductive Source
  | literal (value : Int)
  | expression (e : Expression)
  /-- An expression with limits. -/
  | bounded (e : Expression) (least greatest : Option Int)
  /-- An expression that is an address in a zone. -/
  | inZone (e : Expression) (zone : ZoneId)
  /-- An expression whose value selects from a table. -/
  | selected (e : Expression) (table : NumberTable)
  /-- An address in a zone, cut down to its low bits if `low`; with `samePage` the bits that are cut
  off are those of the instruction's address. -/
  | address (e : Expression) (zone : ZoneId) (low samePage : Bool)
  /-- The distance from the instruction, or from its last word if `fromEnd`, to an address. -/
  | relative (e : Expression) (zone : ZoneId) (least greatest : Option Int) (fromEnd : Bool)
  deriving DecidableEq, Repr

/-- A field of an instruction. -/
inductive Field
  | leaf (source : Source) (shape : Shape)
  | group (parts : List Field) (shape : Shape)
  deriving Repr

/-- What the value of a field depends on. -/
structure Site where
  labels : Labels
  zones : ZoneMap
  /-- Address of the instruction. -/
  address : Int
  /-- Size of the instruction in words. -/
  size : Int

/-! ## Values -/

/-- Refuse an address outside a zone. -/
def Zone.check (z : Zone) (value : Int) : Except FieldError Unit :=
  if z.last < value then .error (.aboveZone value z.last z.name)
  else if value < z.first then .error (.belowZone value z.first z.name)
  else .ok ()

/-- Refuse a value outside the limits; the upper one is looked at first. -/
def Limited.check (what : Limited) (least greatest : Option Int) (value : Int) :
    Except FieldError Unit :=
  match greatest.filter (· < value) with
  | some g => .error (.aboveMax what value g)
  | none =>
    match least.filter (value < ·) with
    | some l => .error (.belowMin what value l)
    | none => .ok ()

namespace Source

/-- The expression behind a value. -/
def expression? : Source → Option Expression
  | literal _ => none
  | expression e | bounded e .. | inZone e _ | selected e _ | address e .. | relative e .. => some e

/-- The source text of a value. -/
def text : Source → String
  | literal v => toString v
  | expression e | bounded e .. | inZone e _ | selected e _ | address e .. | relative e .. => e.text

/-- The low `size` bits of an address. -/
def lowBits (size : Nat) (value : Int) : Int :=
  if size < 128 then value % 2 ^ size else value

/-- The value of a leaf that is `size` bits wide. A distance is the difference of the addresses,
also where that is no 128-bit number; such a distance fits into no slice. -/
def value (site : Site) (size : Nat) (line : SourceLine) : Source → Except Error Int
  | literal v => .ok v
  | expression e => Error.liftAt line (e.eval site.labels)
  | bounded e least greatest => do
    let v ← Error.liftAt line (e.eval site.labels)
    Error.liftAt line (Limited.operand.check least greatest v)
    return v
  | inZone e zone => do
    let v ← Error.liftAt line (e.eval site.labels)
    Error.liftAt line ((site.zones.get zone).check v)
    return v
  | selected e table => do
    let v ← Error.liftAt line (e.eval site.labels)
    match table.lookup v with
    | some w => return w
    | none => Error.failAt line (FieldError.notListed v e.text (table.map Prod.fst))
  | address e zone low samePage => do
    let v ← Error.liftAt line (e.eval site.labels)
    Error.liftAt line ((site.zones.get zone).check v)
    if !low then
      return v
    else if samePage && Number.shiftRight site.address size != Number.shiftRight v size then
      Error.failAt line (FieldError.otherPage v site.address)
    else
      return lowBits size v
  | relative e zone least greatest fromEnd => do
    let v ← Error.liftAt line (e.eval site.labels)
    Error.liftAt line ((site.zones.get zone).check v)
    let distance := v - site.address - if fromEnd then site.size - 1 else 0
    Error.liftAt line (Limited.offset.check least greatest distance)
    return distance

end Source

namespace Field

/-- The shape of a field. -/
def shape : Field → Shape
  | leaf _ s | group _ s => s

/-- Width of a field in bits. -/
def size (f : Field) : Nat := f.shape.size

/-- An unaligned literal. -/
def literal (value : Int) (size : Nat) (wordOrder segmentOrder : Endian) (line : SourceLine) :
    Field :=
  leaf (.literal value) { size, aligned := false, wordOrder, segmentOrder, line }

/-- Pack fields into one, as wide as they are together. -/
def pack (parts : List Field) (aligned : Bool) (line : SourceLine) : Field :=
  let (wordOrder, segmentOrder) :=
    match parts with
    | [] => (.big, .big)
    | p :: _ => (p.shape.wordOrder, p.shape.segmentOrder)
  group parts { size := Counter.sum (parts.map size), aligned, wordOrder, segmentOrder, line }

mutual

/-- The value of a field. -/
def value (site : Site) : Field → Except Error Int
  | leaf source s => source.value site s.size s.line
  | group parts _ => valueOfParts site 0 parts

/-- The patterns of parts put behind the pattern `acc`. -/
def valueOfParts (site : Site) (acc : Int) : List Field → Except Error Int
  | [] => .ok acc
  | p :: rest => do
    let v ← p.value site
    let s ← Error.liftAt p.shape.line (Slice.make v p.shape.size)
    valueOfParts site (Number.wrap (acc * 2 ^ s.size + s.raw)) rest

end

/-- The slice of a field. -/
def slice (site : Site) (f : Field) : Except Error Slice := do
  let v ← f.value site
  Error.liftAt f.shape.line (Slice.make v f.size)

/-! ## Views -/

/-- The source text of a field; a group has none. -/
def text? : Field → Option String
  | leaf source _ => some source.text
  | group .. => none

mutual

/-- Whether a field mentions one of the registers. -/
def mentionsAny (registers : List String) : Field → Bool
  | leaf source _ => source.expression?.any fun e => e.mentionsAny registers
  | group parts _ => anyMentionsAny registers parts

/-- Whether one of the fields mentions one of the registers. -/
def anyMentionsAny (registers : List String) : List Field → Bool
  | [] => false
  | p :: rest => p.mentionsAny registers || anyMentionsAny registers rest

end

mutual

/-- The leaves of a field, in order. -/
def leaves : Field → List Field
  | leaf source s => [leaf source s]
  | group parts _ => leavesOfParts parts

/-- The leaves of fields, in order. -/
def leavesOfParts : List Field → List Field
  | [] => []
  | p :: rest => p.leaves ++ leavesOfParts rest

end

mutual

/-- How a field is shown. -/
def render : Field → String
  | leaf (.literal v) s => s!"Numeric<{v}:{s.size}>"
  | leaf source s => s!"Expression<\"{source.text}\":{s.size}>"
  | group parts _ => "Composite<" ++ renderParts parts ++ ">"

/-- How fields are shown side by side. -/
def renderParts : List Field → String
  | [] => ""
  | p :: rest => p.render ++ renderParts rest

end

end Field

end Retarget
