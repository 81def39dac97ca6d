import Retarget.Document.Basic

/-!
# Nesting of documents

`depth` bounds how deeply a document is nested. `limit n` makes all lists and maps below the first
`n` levels unreadable: they are refused where a value is wanted, and do no harm where nothing is
wanted.
-/

namespace Retarget.Document

mutual

/-- How deeply lists and maps are nested. -/
def depth : Document → Nat
  | list items | series items => depthOfItems items + 1
  | map entries => depthOfEntries entries + 1
  | tagged _ d => d.depth
  | _ => 1

/-- The greatest depth of the items of a list. -/
def depthOfItems : List Document → Nat
  | [] => 0
  | d :: rest => max d.depth (depthOfItems rest)

/-- The greatest depth of the values of a map. -/
def depthOfEntries : List (Document × Document) → Nat
  | [] => 0
  | (_, v) :: rest => max v.depth (depthOfEntries rest)

end

mutual

/-- Make lists and maps that are nested more than `n` deep unreadable. -/
def limit (n : Nat) : Document → Document
  | list items => if n = 0 then unreadable else list (limitItems (n - 1) items)
  | series items => if n = 0 then unreadable else series (limitItems (n - 1) items)
  | map entries => if n = 0 then unreadable else map (limitEntries (n - 1) entries)
  | tagged tag d => tagged tag (d.limit n)
  | d => d

/-- `limit` for all items of a list. -/
def limitItems (n : Nat) : List Document → List Document
  | [] => []
  | d :: rest => d.limit n :: limitItems n rest

/-- `limit` for all keys and values of a map. -/
def limitEntries (n : Nat) : List (Document × Document) → List (Document × Document)
  | [] => []
  | (k, v) :: rest => (k.limit n, v.limit n) :: limitEntries n rest

end

end Retarget.Document
