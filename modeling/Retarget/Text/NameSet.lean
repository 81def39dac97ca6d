/-!
# Sets of names

A set of names is a list in increasing order of code points, without repeats. Registers and the
labels of an expression are such sets.
-/

namespace Retarget

/-- Names in increasing order, each once. -/
abbrev NameSet := List String

namespace NameSet

/-- Add a name, keeping the order. -/
def insert (name : String) : NameSet → NameSet
  | [] => [name]
  | other :: rest =>
    if name < other then name :: other :: rest
    else if name = other then other :: rest
    else other :: insert name rest

/-- The set of the names of a list. -/
def ofList (names : List String) : NameSet := names.foldl (fun set name => insert name set) []

end NameSet

end Retarget
