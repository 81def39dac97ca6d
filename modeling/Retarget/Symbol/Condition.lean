import Retarget.Symbol.Test

/-!
# Conditional blocks

A block is opened with a guard, may go on with branches that have their own guards, and ends with a
branch for the other cases. The current branch is active if the text around the block is, no earlier
guard of the block holds and its own one does. Guards are looked at anew for every line, so that
they see all symbols defined so far.
-/

namespace Retarget

/-- A conditional directive. -/
inductive Condition
  | ifTest (test : Test)
  | ifDefined (symbol : String) (negated : Bool)
  | elseIf (test : Test)
  | otherwise
  | endIf
  deriving DecidableEq, Repr

namespace Condition

/-- Whether a word names a conditional directive. -/
def isWord (word : String) : Bool :=
  ["if", "elif", "else", "endif", "ifdef", "ifndef"].contains word

/-- Read a conditional directive from its word and what follows it. -/
def parse (word rest : String) : Except ConditionError Condition :=
  match word with
  | "if" => (Test.parse rest).map ifTest
  | "elif" => (Test.parse rest).map elseIf
  | "else" => .ok otherwise
  | "endif" => .ok endIf
  | "ifdef" | "ifndef" =>
    let symbol := Text.strip rest
    if isSymbolName symbol then .ok (ifDefined symbol (word == "ifndef"))
    else .error (.needsSymbol word)
  | _ => .error (.notConditional word)

end Condition

/-- What a branch depends on. -/
inductive Guard
  | test (test : Test)
  | defined (symbol : String) (negated : Bool)
  /-- The branch for the other cases. -/
  | always
  deriving DecidableEq, Repr

/-- A guard and the line it stands on. -/
structure Branch where
  guard : Guard
  line : SourceLine
  deriving DecidableEq, Repr

namespace Branch

/-- Whether the guard of a branch holds. -/
def holds (t : SymbolTable) (b : Branch) : Except Error Bool :=
  match b.guard with
  | .test test => test.holds t b.line
  | .defined symbol negated => .ok (t.defines symbol != negated)
  | .always => .ok true

/-- Whether the guard of one of the branches holds. -/
def anyHolds (t : SymbolTable) : List Branch → Except Error Bool
  | [] => .ok false
  | b :: rest => do
    if ← b.holds t then return true else anyHolds t rest

end Branch

/-- An open block. -/
structure Block where
  /-- The earlier branches, first one first. -/
  earlier : List Branch
  current : Branch
  /-- Whether the text around the block was active when the block was opened. -/
  enclosing : Bool
  deriving DecidableEq, Repr

namespace Block

/-- Whether the current branch is active. -/
def isActive (t : SymbolTable) (b : Block) : Except Error Bool :=
  if b.enclosing then do
    if ← Branch.anyHolds t b.earlier then return false else b.current.holds t
  else .ok false

end Block

/-- The open blocks of a file and how often it is muted. -/
structure Conditions where
  /-- The open blocks, innermost first. -/
  blocks : List Block := []
  muteDepth : Nat := 0
  deriving DecidableEq, Repr, Inhabited

namespace Conditions

/-- Whether the next line is active. -/
def isActive (c : Conditions) (t : SymbolTable) : Except Error Bool :=
  match c.blocks with
  | [] => .ok true
  | b :: _ => b.isActive t

/-- Open a block. -/
def openBlock (c : Conditions) (t : SymbolTable) (branch : Branch) : Except Error Conditions := do
  let enclosing ← c.isActive t
  return { c with blocks := { earlier := [], current := branch, enclosing } :: c.blocks }

/-- Process a conditional directive. The block that a failing branch or end belongs to is closed
all the same, so the conditions afterwards are given in any case. -/
def process (c : Conditions) (t : SymbolTable) (line : SourceLine) (d : Condition) :
    Conditions × Except Error Unit :=
  let opened (guard : Guard) : Conditions × Except Error Unit :=
    match c.openBlock t { guard, line } with
    | .ok c' => (c', .ok ())
    | .error e => (c, .error e)
  let continued (guard : Guard) : Conditions × Except Error Unit :=
    match c.blocks with
    | [] => (c, Error.failAt line ConditionError.unmatched)
    | b :: rest =>
      if b.current.guard = .always then
        ({ c with blocks := rest }, Error.failAt line ConditionError.afterElse)
      else
        let block := { b with earlier := b.earlier ++ [b.current], current := { guard, line } }
        ({ c with blocks := block :: rest }, .ok ())
  match d with
  | .ifTest test => opened (.test test)
  | .ifDefined symbol negated => opened (.defined symbol negated)
  | .elseIf test => continued (.test test)
  | .otherwise => continued .always
  | .endIf =>
    match c.blocks with
    | [] => (c, Error.failAt line ConditionError.unmatched)
    | _ :: rest => ({ c with blocks := rest }, .ok ())

/-- The line of the current branch of the innermost open block. -/
def openLine (c : Conditions) : Option SourceLine := c.blocks.head?.map fun b => b.current.line

/-- Mute the following lines. -/
def mute (c : Conditions) : Conditions := { c with muteDepth := c.muteDepth + 1 }

/-- Undo one muting; none if there is none. -/
def unmute? (c : Conditions) : Option Conditions :=
  match c.muteDepth with
  | 0 => none
  | n + 1 => some { c with muteDepth := n }

/-- Whether the next line is muted. -/
def isMuted (c : Conditions) : Bool := 0 < c.muteDepth

end Conditions

end Retarget
