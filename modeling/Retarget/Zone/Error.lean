import Retarget.Number

/-!
# Why a memory zone cannot be made or moved in
-/

namespace Retarget

/-- What can be wrong with a memory zone. -/
inductive ZoneError
  /-- The range leaves the address space. -/
  | outsideSpace (name : String) (first last : Int) (bits : Nat)
  | reversed (name : String)
  | nameTaken (name : String)
  /-- The cursor would come before the zone. -/
  | cursorBelow (address : Int) (name : String) (first : Int)
  /-- The cursor would pass the end of the zone. -/
  | cursorBeyond (address last : Int) (name : String)
  deriving DecidableEq, Repr

namespace ZoneError

/-- The text of the message. -/
def message : ZoneError → String
  | outsideSpace name first last bits =>
    s!"memory zone \"{name}\" range 0x{Number.hex first}-0x{Number.hex last} is outside of the " ++
      s!"{bits}-bit address space"
  | reversed name => s!"memory zone \"{name}\" starts after it ends"
  | nameTaken name => s!"memory zone \"{name}\" already exists"
  | cursorBelow address name first =>
    s!"address 0x{Number.hex address} is below the start of memory zone \"{name}\" " ++
      s!"(0x{Number.hex first})"
  | cursorBeyond address last name =>
    s!"address 0x{Number.hex address} would exceed maximum zone address 0x{Number.hex last} of " ++
      s!"memory zone \"{name}\""

/-- Whether the definition of a zone is at fault, and not an address. -/
def isDefinition : ZoneError → Bool
  | outsideSpace .. | reversed _ | nameTaken _ => true
  | _ => false

end ZoneError

end Retarget
