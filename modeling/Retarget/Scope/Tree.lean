import Retarget.Scope.Error

/-!
# Scopes of labels

Labels live in scopes. There is one scope for the whole program, one for each file and one for each
block of local labels; the spelling of a label says in which of them it is bound and looked up:
`.name` in the block, `_name` in the file, any other name in the program.
-/

namespace Retarget

/-- The value of a label and the line that gave it. -/
structure Binding where
  label : String
  value : Int
  line : SourceLine
  deriving DecidableEq, Repr

/-- Bindings in the order of their definition. -/
abbrev Bindings := List Binding

namespace Bindings

/-- The binding of a label. -/
def find? (bs : Bindings) (label : String) : Option Binding :=
  List.find? (fun b => b.label == label) bs

/-- Bind a label that is not bound yet. -/
def bind (bs : Bindings) (label : String) (value : Int) (line : SourceLine) :
    Except LabelError Bindings :=
  match find? bs label with
  | some b => .error (.alreadyDefined label b.line)
  | none => .ok (bs ++ [{ label, value, line }])

end Bindings

/-- Number of a scope; zero is the scope of the whole program. -/
abbrev ScopeId := Nat

/-- A scope. -/
structure Scope where
  tier : Tier
  parent : Option ScopeId
  /-- What opened the scope: a file name, or the label before a block. -/
  reference : String
  bindings : Bindings := []
  deriving DecidableEq, Repr, Inhabited

/-- All scopes of a program, in the order of their opening. -/
structure ScopeTree where
  scopes : List Scope
  deriving DecidableEq, Repr, Inhabited

namespace ScopeTree

/-- Only the scope of the whole program. -/
def empty : ScopeTree :=
  { scopes := [{ tier := .everywhere, parent := none, reference := "GLOBAL" }] }

/-- Number of the scope of the whole program. -/
def globalId : ScopeId := 0

/-- The nearest scope of a tier, from a scope outwards; none if there is only a wider one. -/
def enclosing (t : ScopeTree) (id : ScopeId) (tier : Tier) : Option ScopeId :=
  match t.scopes[id]? with
  | none => none
  | some s =>
    if s.tier = tier then some id
    else if s.tier.depth < tier.depth then none
    else
      match s.parent with
      | none => none
      | some p => if p < id then t.enclosing p tier else none
termination_by id

/-- Open the scope of a file. -/
def openFile (t : ScopeTree) (fileName : String) : ScopeTree × ScopeId :=
  ({ scopes := t.scopes ++ [{ tier := .file, parent := some globalId, reference := fileName }] },
    t.scopes.length)

/-- Open a block of local labels in the file that a scope belongs to. -/
def openBlock (t : ScopeTree) (within : ScopeId) (label : String) : ScopeTree × ScopeId :=
  let parent := (t.enclosing within .file).getD within
  ({ scopes := t.scopes ++ [{ tier := .block, parent := some parent, reference := label }] },
    t.scopes.length)

/-- The tier of a scope. -/
def tierOf (t : ScopeTree) (id : ScopeId) : Tier :=
  ((t.scopes[id]?).map Scope.tier).getD .everywhere

/-- Bind a label in the scope that its spelling calls for, from a scope outwards. -/
def bind (t : ScopeTree) (id : ScopeId) (label : String) (value : Int) (line : SourceLine) :
    Except LabelError ScopeTree :=
  let tier := Tier.ofLabel label
  match t.enclosing id tier with
  | none => .error (.wrongTier label tier (t.tierOf id))
  | some target =>
    match t.scopes[target]? with
    | none => .error (.wrongTier label tier (t.tierOf id))
    | some s => do
      let bindings ← s.bindings.bind label value line
      return { scopes := t.scopes.set target { s with bindings } }

/-- The value of a label, seen from a scope. -/
def lookup (t : ScopeTree) (id : ScopeId) (label : String) : Option Int := do
  let target ← t.enclosing id (Tier.ofLabel label)
  let s ← t.scopes[target]?
  let b ← s.bindings.find? label
  return b.value

end ScopeTree

end Retarget
