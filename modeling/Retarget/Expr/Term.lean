import Retarget.Expr.Error
import Retarget.Number
import Retarget.Text.NameSet

/-!
# Terms

The tree of an expression and its value. A term is evaluated against a look-up of labels; `+`, `-`
and `*` fail when they leave the 128-bit range, division truncates, the remainder is never negative
and the bit operations act on two's complement.
-/

namespace Retarget

/-- The binary operators. -/
inductive BinOp
  | add | sub | mul | div | mod | and | or | xor | shl | shr
  deriving DecidableEq, Repr

namespace BinOp

/-- How an operator is written. -/
def symbol : BinOp → String
  | add => "+"
  | sub => "-"
  | mul => "*"
  | div => "/"
  | mod => "%"
  | and => "&"
  | or => "|"
  | xor => "^"
  | shl => "<<"
  | shr => ">>"

/-- How tightly an operator binds: products 1, sums 2, shifts 3, bit operations 4. -/
def level : BinOp → Nat
  | mul | div | mod => 1
  | add | sub => 2
  | shl | shr => 3
  | and | or | xor => 4

/-- A result that must be a number. -/
def checked (op : BinOp) (v : Int) : Except ExprError Int :=
  if Number.fits v then .ok v else .error (.overflow op.symbol)

/-- A shift amount: an unsigned number of 32 bits. -/
def amount (op : BinOp) (v : Int) : Except ExprError Nat :=
  if 0 ≤ v ∧ v < 2 ^ (32 : Nat) then .ok v.toNat else .error (.overflow op.symbol)

/-- Apply an operator to two numbers. A left shift drops the bits that leave the range; a shift to
the right by 128 or more gives zero. The least number divided by `-1` is no number of the language,
and a division of 128-bit numbers breaks off there; here the quotient wraps around to the least
number, and the remainder is zero. -/
def apply (op : BinOp) (l r : Int) : Except ExprError Int :=
  match op with
  | add => checked op (l + r)
  | sub => checked op (l - r)
  | mul => checked op (l * r)
  | div => if r = 0 then .error .divisionByZero else .ok (Number.wrap (l.tdiv r))
  | mod => if r = 0 then .error .divisionByZero else .ok (l % r)
  | and => .ok (Number.pattern l &&& Number.pattern r).toInt
  | or => .ok (Number.pattern l ||| Number.pattern r).toInt
  | xor => .ok (Number.pattern l ^^^ Number.pattern r).toInt
  | shl => do
    let n ← amount op r
    if n < 128 then .ok (Number.pattern l <<< n).toInt else .error (.overflow op.symbol)
  | shr => do
    let n ← amount op r
    .ok (Number.shiftRight l n)

end BinOp

/-- An expression tree. -/
inductive Term
  | number (value : Int)
  | label (name : String)
  | neg (operand : Term)
  /-- The lowest byte. -/
  | lsb (operand : Term)
  /-- The byte `index` places above the lowest one. -/
  | byte (index : Nat) (operand : Term)
  | binary (op : BinOp) (left right : Term)
  deriving DecidableEq, Repr

/-- A look-up of labels. -/
abbrev Labels := String → Option Int

namespace Term

/-- The value of a term, or the first reason, from left to right, why it has none. -/
def eval (labels : Labels) : Term → Except ExprError Int
  | number v => .ok v
  | label name =>
    match labels name with
    | some v => .ok v
    | none => .error (.unknownLabel name)
  | neg t => do
    let v ← t.eval labels
    .ok (Number.wrap (-v))
  | lsb t => do
    let v ← t.eval labels
    .ok (Number.byteAt 0 v)
  | byte index t => do
    let v ← t.eval labels
    .ok (Number.byteAt index v)
  | binary op l r => do
    let x ← l.eval labels
    let y ← r.eval labels
    op.apply x y

/-- The labels of a term from left to right, with repeats. -/
def labels : Term → List String
  | number _ => []
  | label name => [name]
  | neg t | lsb t | byte _ t => t.labels
  | binary _ l r => l.labels ++ r.labels

end Term

end Retarget
