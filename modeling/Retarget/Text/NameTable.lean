/-!
# Tables from names

A table from names is a list of entries in increasing order of the names, each name once.
-/

namespace Retarget

/-- Entries in increasing order of their names. -/
abbrev NameTable (α : Type) := List (String × α)

namespace NameTable

/-- Add an entry, in place of an older one with the same name. -/
def insert {α : Type} (name : String) (value : α) : NameTable α → NameTable α
  | [] => [(name, value)]
  | (n, v) :: rest =>
    if name < n then (name, value) :: (n, v) :: rest
    else if name = n then (name, value) :: rest
    else (n, v) :: insert name value rest

/-- The table of a list of entries, of which the later ones win. -/
def ofList {α : Type} (entries : List (String × α)) : NameTable α :=
  entries.foldl (fun t e => insert e.1 e.2 t) []

/-- The names of a table. -/
def names {α : Type} (t : NameTable α) : List String := t.map Prod.fst

end NameTable

end Retarget
