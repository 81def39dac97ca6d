/-!
# Documents

Configurations are trees of scalars, lists and maps. Maps keep the order of their entries and any
repeated keys. Both text formats are read into this one type.
-/

namespace Retarget

/-- A configuration tree. -/
inductive Document
  | null
  | bool (b : Bool)
  /-- An integer of at most 64 bits. -/
  | integer (v : Int)
  /-- Any other number, as it is shown. -/
  | decimal (text : String)
  | text (s : String)
  /-- An unquoted scalar, whose type depends on what is wanted where it stands. -/
  | plain (s : String)
  /-- A list, which may also be a record with its fields in order. -/
  | list (items : List Document)
  /-- A list that is not a record. -/
  | series (items : List Document)
  | map (entries : List (Document × Document))
  /-- A document whose type is named beside it. -/
  | tagged (tag : String) (content : Document)
  /-- Well formed, but without a value: a number that is too large, or a list that is nested too
  deeply. -/
  | unreadable
  deriving Repr, Inhabited

end Retarget
