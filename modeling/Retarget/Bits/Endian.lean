/-!
# Orders of words and segments
-/

namespace Retarget

/-- Most significant first, or least significant first. -/
inductive Endian
  | big
  | little
  deriving DecidableEq, Repr, Inhabited

namespace Endian

/-- The word for an order. -/
def text : Endian → String
  | big => "big"
  | little => "little"

/-- Both orders, in the order in which they are counted. -/
def all : List Endian := [big, little]

/-- The order that a word names. -/
def ofText? : String → Option Endian
  | "big" => some big
  | "little" => some little
  | _ => none

/-- Put a list that is most significant first into this order. -/
def arrange {α : Type} (order : Endian) (items : List α) : List α :=
  match order with
  | big => items
  | little => items.reverse

end Endian

end Retarget
