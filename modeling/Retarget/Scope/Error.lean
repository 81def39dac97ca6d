import Retarget.SourceLine

/-!
# Why a label cannot be bound or a named scope cannot be made
-/

namespace Retarget

/-- Where labels are visible: everywhere, in one file, or between two labels that are not local. -/
inductive Tier
  | everywhere
  | file
  | block
  deriving DecidableEq, Repr, Inhabited

namespace Tier

/-- The word for a tier. -/
def text : Tier → String
  | everywhere => "Global"
  | file => "File"
  | block => "Local"

/-- The tier that a label's spelling calls for. -/
def ofLabel (label : String) : Tier :=
  match label.toList with
  | '.' :: _ => block
  | '_' :: _ => file
  | _ => everywhere

/-- How far inside a tier is. -/
def depth : Tier → Nat
  | everywhere => 0
  | file => 1
  | block => 2

end Tier

/-- What can be wrong with the binding of a label. -/
inductive LabelError
  | alreadyDefined (label : String) (line : SourceLine)
  /-- No scope of the tier that the label calls for. -/
  | wrongTier (label : String) (wanted found : Tier)
  deriving DecidableEq, Repr

namespace LabelError

/-- The text of the message. -/
def message : LabelError → String
  | alreadyDefined label line => s!"label \"{label}\" already defined at {line.render}"
  | wrongTier label wanted found =>
    s!"label \"{label}\" requires a {wanted.text} scope but is defined in a {found.text} scope"

end LabelError

/-- What can be wrong with a named scope. -/
inductive NamedScopeError
  | badName (name : String)
  | badLead (lead : String)
  /-- A leading dot marks local labels. -/
  | dottedLead (lead : String)
  | nameTaken (name : String) (line : SourceLine)
  | leadTaken (name lead owner : String) (line : SourceLine)
  deriving DecidableEq, Repr

namespace NamedScopeError

/-- The text of the message. -/
def message : NamedScopeError → String
  | badName name => s!"scope name \"{name}\" cannot be empty or contain whitespace"
  | badLead lead => s!"scope prefix \"{lead}\" cannot be empty or contain whitespace"
  | dottedLead lead =>
    s!"scope prefix \"{lead}\" cannot start with '.' since that denotes a local label"
  | nameTaken name line => s!"scope \"{name}\" already defined at {line.render}"
  | leadTaken name lead owner line =>
    s!"scope \"{name}\" uses prefix \"{lead}\" which already belongs to scope \"{owner}\" " ++
      s!"defined at {line.render}"

end NamedScopeError

end Retarget
