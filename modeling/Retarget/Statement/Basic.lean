import Retarget.Field.Layout
import Retarget.Isa.Model
import Retarget.Scope.Named
import Retarget.Statement.Error

/-!
# Statements

A source line holds any number of statements. Each becomes an item that knows its line, its zone,
its scope and how it is emitted.
-/

namespace Retarget

/-- A value of a data statement. -/
inductive DataItem
  | value (e : Expression)
  /-- A character of a quoted text, by its number. -/
  | char (code : Nat)
  /-- What ends a terminated text. -/
  | terminator
  deriving DecidableEq, Repr

/-- A data statement. -/
structure DataLine where
  /-- What messages call it. -/
  name : String
  /-- Width of a value in bits. -/
  valueBits : Nat
  items : List DataItem
  /-- Whether characters share words. -/
  packed : Bool
  deriving DecidableEq, Repr

/-- A statement. -/
inductive Statement
  /-- Nothing but blanks and a comment. -/
  | plain
  | label (name : String)
  /-- A constant, which has its value as soon as it is read. -/
  | constant (name : String) (value : Int)
  | instruction (encoding : Encoding)
  | data (d : DataLine)
  /-- Words with one value. -/
  | fill (count value : Expression)
  /-- Words with one value up to an address and with it. -/
  | fillUntil (target value : Expression)
  /-- Go to the next page. -/
  | align (page : Option Expression)
  /-- Go to an address, counted from the start of a zone if one is named. -/
  | org (address : Expression) (zone : Option String)
  /-- Go to the cursor of a zone. -/
  | setZone (name : String)
  deriving Repr

/-- A statement in its place in the source. -/
structure Item where
  line : SourceLine
  text : String
  comment : String
  zone : ZoneId
  scope : ScopeId
  /-- The named scopes that are active here. -/
  active : ActiveScopes
  /-- Whether the statement counts at all; directives and inactive lines do not. -/
  compilable : Bool
  /-- Whether the statement takes up space but is not emitted. -/
  muted : Bool
  statement : Statement
  deriving Repr

/-- What the values of labels depend on. -/
structure Environment where
  isa : Isa
  zones : ZoneMap
  scopes : ScopeTree
  named : NamedScopes

namespace Environment

/-- The labels seen from a scope: those of active named scopes come first. -/
def labels (env : Environment) (scope : ScopeId) (active : ActiveScopes) : Labels :=
  fun name => (env.named.lookup active name).or (env.scopes.lookup scope name)

end Environment

end Retarget
