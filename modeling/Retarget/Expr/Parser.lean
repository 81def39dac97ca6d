import Retarget.Expr.Token

/-!
# Reading expressions

Binary operators have four levels, all left-associative; the unary minus binds tighter than any of
them. `Expression.parse` reads a whole text, and an expression keeps the text it was read from.

`Term.readLevel n` reads operands joined by operators of level `n` or tighter, and `Term.readChain`
the operators that follow an operand. Every reader returns what is left of the token list with a
proof that it is shorter, which is why reading ends. The measure is one number for the length and
the level together, so that readers can be evaluated.
-/

namespace Retarget

namespace Term

/-- What is left after reading something from `ts`. -/
abbrev Rest (ts : List Token) := { rest : List Token // rest.length < ts.length }

/-- What is left after reading something that may be empty from `ts`. -/
abbrev RestLe (ts : List Token) := { rest : List Token // rest.length ≤ ts.length }

/-- The operator of level `n` that a token is. -/
def operatorAt (n : Nat) : Token → Option BinOp
  | .op operator => if operator.level = n then some operator else none
  | _ => none

mutual

/-- Operands joined by operators of level `n` or tighter; level 0 is one operand. -/
def readLevel (n : Nat) (ts : List Token) : Except ExprError (Term × Rest ts) :=
  match n with
  | 0 => readUnary ts
  | n + 1 => do
    let ⟨left, rest, h⟩ ← readLevel n ts
    let ⟨whole, more, h'⟩ ← readChain n left rest
    .ok (whole, ⟨more, Nat.lt_of_le_of_lt h' h⟩)
termination_by 7 * ts.length + n + 1

/-- The operators of level `n + 1` that follow the operand `left`, with their right operands. -/
def readChain (n : Nat) (left : Term) (ts : List Token) : Except ExprError (Term × RestLe ts) :=
  match ts with
  | [] => .ok (left, ⟨[], Nat.le_refl _⟩)
  | t :: rest =>
    match operatorAt (n + 1) t with
    | none => .ok (left, ⟨t :: rest, Nat.le_refl _⟩)
    | some operator => do
      let ⟨right, more, h⟩ ← readLevel n rest
      let ⟨whole, last, h'⟩ ← readChain n (.binary operator left right) more
      .ok (whole, ⟨last, by simp; omega⟩)
termination_by 7 * ts.length + n - 5

/-- An operand with its minus signs. -/
def readUnary (ts : List Token) : Except ExprError (Term × Rest ts) :=
  match ts with
  | [] => .error .valueMissing
  | .op .sub :: rest => do
    let ⟨operand, more, h⟩ ← readUnary rest
    .ok (.neg operand, ⟨more, by simp; omega⟩)
  | .number _ v :: rest => .ok (.number v, ⟨rest, by simp⟩)
  | .label name :: rest => .ok (.label name, ⟨rest, by simp⟩)
  | .open :: rest => do
    let ⟨inner, more, h⟩ ← readClosed rest
    .ok (inner, ⟨more, by simp; omega⟩)
  | .lsb :: rest => do
    let ⟨inner, more, h⟩ ← readClosed rest
    .ok (.lsb inner, ⟨more, by simp; omega⟩)
  | .byte index :: rest => do
    let ⟨inner, more, h⟩ ← readClosed rest
    .ok (.byte index inner, ⟨more, by simp; omega⟩)
  | t :: _ => .error (.valueExpected t.text)
termination_by 7 * ts.length

/-- An expression and its closing parenthesis. -/
def readClosed (ts : List Token) : Except ExprError (Term × Rest ts) := do
  let ⟨inner, rest, h⟩ ← readLevel 4 ts
  match rest, h with
  | .close :: more, h => .ok (inner, ⟨more, by simp at h; omega⟩)
  | _, _ => .error .unclosedParen
termination_by 7 * ts.length + 6

end

/-- The term of a whole token list; `text` is shown when something is left over. -/
def ofTokens (text : String) (ts : List Token) : Except ExprError Term := do
  let ⟨term, rest, _⟩ ← readLevel 4 ts
  match rest with
  | [] => .ok term
  | t :: _ => .error (.trailing t.text text)

end Term

/-- An expression: its tree and the text it was written as. -/
structure Expression where
  text : String
  term : Term
  deriving DecidableEq, Repr

namespace Expression

/-- Read an expression. -/
def parse (s : String) : Except ExprError Expression := do
  let text := Text.strip s
  let term ← Term.ofTokens text (← Token.scan s.toList)
  .ok { text, term }

/-- The expression that is the number `v`. -/
def literal (v : Int) : Expression := { text := toString v, term := .number v }

/-- The value of an expression. -/
def eval (e : Expression) (labels : Labels) : Except ExprError Int := e.term.eval labels

/-- The labels an expression mentions. -/
def labels (e : Expression) : NameSet := NameSet.ofList e.term.labels

/-- Whether an expression mentions one of the registers. -/
def mentionsAny (e : Expression) (registers : List String) : Bool :=
  registers.any fun r => e.labels.contains r

end Expression

/-- Read a text as one number, with at most one minus sign and no operators or labels. -/
def readLiteral (s : String) : Option Int :=
  match Token.scan (Text.trim s.toList) with
  | .ok [.number _ v] => some v
  | .ok [.op .sub, .number _ v] => some (-v)
  | _ => none

end Retarget
