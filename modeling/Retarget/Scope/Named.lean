import Retarget.Scope.Tree
import Retarget.Text.Blank

/-!
# Named scopes

A named scope is a private table of labels for a library. It is made with a lead, the beginning that
its labels share; a label with that lead goes into the table if the scope is active and the label
stands in the file that made the scope. The scope that became active last is asked first.
-/

namespace Retarget

/-- A private table of labels. -/
structure NamedScope where
  name : String
  /-- The beginning that the labels of the scope share. -/
  lead : String
  definedAt : SourceLine
  bindings : Bindings := []
  deriving DecidableEq, Repr

namespace NamedScope

/-- The lead of a scope that names none. -/
def defaultLead : String := "_"

/-- Whether a label starts with the lead of the scope. -/
def claims (s : NamedScope) (label : String) : Bool :=
  s.lead.toList.isPrefixOf label.toList

end NamedScope

/-- All named scopes, in the order of their definition. -/
abbrev NamedScopes := List NamedScope

namespace NamedScopes

/-- The scope with a name. -/
def find? (all : NamedScopes) (name : String) : Option NamedScope :=
  List.find? (fun s => s.name == name) all

/-- Whether a text is empty or has a blank. -/
def emptyOrBlank (text : String) : Bool := text.isEmpty || text.toList.any Text.isBlank

/-- Make a scope. -/
def create (all : NamedScopes) (name lead : String) (line : SourceLine) :
    Except NamedScopeError NamedScopes :=
  if emptyOrBlank name then .error (.badName name)
  else if emptyOrBlank lead then .error (.badLead lead)
  else if lead.toList.head? = some '.' then .error (.dottedLead lead)
  else
    match find? all name with
    | some s => .error (.nameTaken name s.definedAt)
    | none =>
      match List.find? (fun s => s.lead == lead) all with
      | some s => .error (.leadTaken name lead s.name s.definedAt)
      | none => .ok (all ++ [{ name, lead, definedAt := line }])

/-- The active scopes that claim a label, the one that became active last first. -/
def claiming (all : NamedScopes) (active : List String) (label : String) : NamedScopes :=
  (active.filterMap (find? all)).filter fun s => s.claims label

/-- The value of a label in the active scopes. -/
def lookup (all : NamedScopes) (active : List String) (label : String) : Option Int :=
  (claiming all active label).findSome? fun s => (s.bindings.find? label).map Binding.value

/-- Bind a label in the first active scope that claims it; none if there is no such scope or the
label stands in another file than the scope. -/
def bind? (all : NamedScopes) (active : List String) (label : String) (value : Int)
    (line : SourceLine) : Except LabelError (Option NamedScopes) :=
  match (claiming all active label).head? with
  | none => .ok none
  | some s =>
    if s.definedAt.file = line.file then do
      let bindings ← s.bindings.bind label value line
      return some (all.map fun other =>
        if other.name == s.name then { other with bindings } else other)
    else .ok none

end NamedScopes

/-- The names of the active scopes, the one that became active last first. -/
abbrev ActiveScopes := List String

namespace ActiveScopes

/-- Make a scope inactive. -/
def deactivate (active : ActiveScopes) (name : String) : ActiveScopes :=
  active.filter fun n => n != name

/-- Make a scope the first active one. -/
def activate (active : ActiveScopes) (name : String) : ActiveScopes :=
  name :: deactivate active name

end ActiveScopes

end Retarget
