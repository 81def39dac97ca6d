import Retarget.Zone.Error

/-!
# Memory zones

The address space is partitioned into zones, each with its own cursor where the next statement goes.
The zone `GLOBAL` always exists. A cursor may stand one past the last address of its zone, which
means that the zone is full.
-/

namespace Retarget

/-- A range of addresses with a cursor. -/
structure Zone where
  name : String
  /-- Width of addresses in bits. -/
  bits : Nat
  first : Int
  last : Int
  /-- Where the next statement goes. -/
  cursor : Int
  deriving DecidableEq, Repr, Inhabited

/-- The greatest address of `bits` bits. -/
def maxAddress (bits : Nat) : Int :=
  if 127 ≤ bits then Number.greatest else 2 ^ bits - 1

namespace Zone

/-- A zone with its cursor at the start. -/
def make (bits : Nat) (first last : Int) (name : String) : Except ZoneError Zone :=
  if first < 0 ∨ maxAddress bits < last then .error (.outsideSpace name first last bits)
  else if last < first then .error (.reversed name)
  else .ok { name, bits, first, last, cursor := first }

/-- Move the cursor. -/
def moveTo (z : Zone) (address : Int) : Except ZoneError Zone :=
  if address < z.first then .error (.cursorBelow address z.name z.first)
  else if z.last + 1 < address then .error (.cursorBeyond address z.last z.name)
  else .ok { z with cursor := address }

/-- Whether an address lies in the zone. -/
def contains (z : Zone) (address : Int) : Bool :=
  decide (z.first ≤ address) && decide (address ≤ z.last)

end Zone

/-- Number of a zone: zero is `GLOBAL`, the others follow in the order of their definition. -/
abbrev ZoneId := Nat

/-- All zones of a program. -/
structure ZoneMap where
  /-- Width of addresses in bits. -/
  bits : Nat
  /-- The zone `GLOBAL`. -/
  global : Zone
  /-- The other zones, in the order of their definition. -/
  others : List Zone
  deriving DecidableEq, Repr, Inhabited

namespace ZoneMap

/-- Name of the zone that always exists. -/
def globalName : String := "GLOBAL"

/-- Number of the zone that always exists. -/
def globalId : ZoneId := 0

/-- The zone `GLOBAL` over the given range, with its cursor at `origin`. -/
def makeGlobal (bits : Nat) (first last origin : Int) : Except ZoneError Zone := do
  let z ← Zone.make bits first last globalName
  z.moveTo origin

/-- Only the zone `GLOBAL`, over the whole address space. -/
def make (bits : Nat) (origin : Int) : Except ZoneError ZoneMap := do
  let global ← makeGlobal bits 0 (maxAddress bits) origin
  return { bits, global, others := [] }

/-- Give `GLOBAL` another range and put its cursor at `origin`. -/
def redefineGlobal (m : ZoneMap) (first last origin : Int) : Except ZoneError ZoneMap := do
  let global ← makeGlobal m.bits first last origin
  return { m with global }

/-- All zones, in the order of their numbers. -/
def toList (m : ZoneMap) : List Zone := m.global :: m.others

/-- The number of the zone with a name. -/
def find? (m : ZoneMap) (name : String) : Option ZoneId :=
  m.toList.findIdx? fun z => z.name == name

/-- The zone with a number. -/
def get (m : ZoneMap) (id : ZoneId) : Zone := m.toList.getD id m.global

/-- Define a zone. -/
def create (m : ZoneMap) (first last : Int) (name : String) : Except ZoneError ZoneMap :=
  if (m.find? name).isSome then .error (.nameTaken name)
  else do
    let z ← Zone.make m.bits first last name
    return { m with others := m.others ++ [z] }

/-- Put another zone in the place of the one with a number. -/
def set (m : ZoneMap) (id : ZoneId) (z : Zone) : ZoneMap :=
  match id with
  | 0 => { m with global := z }
  | i + 1 => { m with others := m.others.set i z }

/-- Move the cursor of a zone. -/
def moveTo (m : ZoneMap) (id : ZoneId) (address : Int) : Except ZoneError ZoneMap := do
  let z ← (m.get id).moveTo address
  return m.set id z

end ZoneMap

end Retarget
