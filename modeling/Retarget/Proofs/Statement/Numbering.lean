import Retarget.Proofs.Isa.Numbering
import Retarget.Statement.Reader

/-!
# Line numbers in statements

A statement is read alike on every line. Of all that a reader knows, statements depend on the
instruction set and the zones; only a constant depends on the labels that can be seen, because it
has its value at once. So two readers that stand on lines of one file read the same statement, up to
the line number, as soon as they agree on the value of a constant (`Reader.readStatement_alike`).
-/

namespace Retarget

/-- The statement on the line with another number. -/
def Statement.atNumber (n : Nat) : Statement → Statement
  | instruction e => instruction (e.atNumber n)
  | s => s

/-- The item on the line with another number. -/
def Item.atNumber (n : Nat) (i : Item) : Item :=
  { i with line := i.line.atNumber n, statement := i.statement.atNumber n }

theorem Item.atNumber_atNumber (m n : Nat) (i : Item) :
    (i.atNumber n).atNumber m = i.atNumber m := by
  have hstatement : (i.statement.atNumber n).atNumber m = i.statement.atNumber m := by
    cases i.statement with
    | instruction e => exact congrArg Statement.instruction (e.atNumber_atNumber m n)
    | _ => rfl
  unfold atNumber
  rw [hstatement]
  rfl

namespace DataLine

variable (n : Nat) (line : SourceLine)

theorem readItems_atNumber (directive : String) (args : List (List Char)) :
    readItems directive (line.atNumber n) args = renumber n id (readItems directive line args) := by
  induction args with
  | nil => rfl
  | cons arg rest ih =>
    unfold readItems
    split
    · exact bind_renumber ih fun items => rfl
    · split
      · rfl
      · exact liftAt_bind_renumber fun e => bind_renumber ih fun items => rfl

theorem read_atNumber (isa : Isa) (directive : String) (bytes : Nat) (args : List Char) :
    read isa directive bytes args (line.atNumber n) =
      renumber n id (read isa directive bytes args line) := by
  unfold read
  dsimp only
  split
  · rfl
  · exact bind_renumber (readItems_atNumber n line directive _) fun items => rfl

end DataLine

namespace Reader

/-- Two readers for the same instruction set and zones, the second one on line `n` of the file. -/
structure Alike (n : Nat) (r r' : Reader) : Prop where
  isa_eq : r'.env.isa = r.env.isa
  zones_eq : r'.env.zones = r.env.zones
  line_eq : r'.line = r.line.atNumber n

/-- The two readers agree on the value that a text gives to a constant, if it does. -/
def AgreeOn (r r' : Reader) (cs : List Char) : Prop :=
  ∀ name value e, constantParts? cs = some (name, value) →
    Expression.parse (String.ofList value) = .ok e →
    e.eval (r'.env.labels r'.position.scope r'.position.active) =
      e.eval (r.env.labels r.position.scope r.position.active)

variable {n : Nat} {r r' : Reader}

theorem Alike.checkLabel_eq (h : Alike n r r') (name : List Char) :
    r'.checkLabel name = renumber n id (r.checkLabel name) := by
  unfold checkLabel
  rw [h.isa_eq, h.line_eq]
  split
  · rfl
  · split <;> rfl

theorem Alike.expression_eq (h : Alike n r r') (cs : List Char) :
    r'.expression cs = renumber n id (r.expression cs) := by
  unfold expression
  rw [h.line_eq, renumber_liftAt]

theorem Alike.arguments_eq (h : Alike n r r') (name : String) (count : Nat) (args : List Char) :
    r'.arguments name count args = renumber n id (r.arguments name count args) := by
  unfold arguments
  rw [h.line_eq]
  dsimp only
  split <;> rfl

theorem Alike.checkZone_eq (h : Alike n r r') (name : String) :
    r'.checkZone name = renumber n id (r.checkZone name) := by
  unfold checkZone
  rw [h.line_eq, h.zones_eq]
  split <;> rfl

/-! ## Directives -/

theorem Alike.readOrigin_eq (h : Alike n r r') (args : List Char) :
    r'.readOrigin args = renumber n (Statement.atNumber n) (r.readOrigin args) := by
  have haddress (address : List Char) (zone : Option String) :
      (do return Statement.org (← r'.expression address) zone) =
        renumber n (Statement.atNumber n) (do return .org (← r.expression address) zone) :=
    bind_renumber (h.expression_eq address) fun e => rfl
  unfold readOrigin
  dsimp only
  split
  · rw [h.line_eq]
    rfl
  · split
    · exact bind_renumber (h.checkZone_eq _) fun _ => haddress _ _
    · exact haddress _ _

theorem Alike.readZone_eq (h : Alike n r r') (args : List Char) :
    r'.readZone args = renumber n (Statement.atNumber n) (r.readZone args) := by
  unfold readZone
  dsimp only
  split
  · rw [h.line_eq]
    rfl
  · exact bind_renumber (h.checkZone_eq _) fun _ => rfl

theorem Alike.readDirective_eq (h : Alike n r r') (cs : List Char) :
    r'.readDirective cs = renumber n (Statement.atNumber n) (r.readDirective cs) := by
  unfold readDirective
  dsimp only
  split
  · rw [h.line_eq]
    rfl
  · split
    · exact h.readOrigin_eq _
    · exact h.readZone_eq _
    · refine bind_renumber (h.arguments_eq _ 2 _) fun parts => ?_
      rw [id, h.line_eq]
      split
      · exact bind_renumber (h.expression_eq _) fun _ => bind_renumber (h.expression_eq _) fun _ =>
          rfl
      · rfl
    · refine bind_renumber (h.arguments_eq _ 1 _) fun parts => ?_
      rw [id, h.line_eq]
      split
      · exact bind_renumber (h.expression_eq _) fun _ => rfl
      · rfl
    · refine bind_renumber (h.arguments_eq _ 1 _) fun parts => ?_
      rw [id, h.line_eq]
      split
      · exact bind_renumber (h.expression_eq _) fun _ => rfl
      · rfl
    · split
      · rfl
      · exact bind_renumber (h.expression_eq _) fun _ => rfl
    · split
      · rw [h.isa_eq, h.line_eq]
        exact bind_renumber (DataLine.read_atNumber n r.line r.env.isa _ _ _) fun _ => rfl
      · rw [h.line_eq]
        rfl

/-! ## Statements -/

/-- What reading a statement gives on the line with another number. -/
def readAtNumber (n : Nat) (read : List Char × Statement × Nat) : List Char × Statement × Nat :=
  (read.1, read.2.1.atNumber n, read.2.2)

theorem Alike.readInstruction_eq (h : Alike n r r') (cs : List Char) :
    r'.readInstruction cs = renumber n (readAtNumber n) (r.readInstruction cs) := by
  unfold readInstruction
  rw [h.isa_eq, h.zones_eq, h.line_eq]
  dsimp only
  split
  · rfl
  · exact bind_renumber (r.env.isa.encode_atNumber r.env.zones n r.line _) fun _ => rfl

/-- **Two readers of one file read the same statement**, up to the line number. -/
theorem readStatement_alike (h : Alike n r r') {cs : List Char} (hagree : r.AgreeOn r' cs) :
    r'.readStatement cs = renumber n (readAtNumber n) (r.readStatement cs) := by
  unfold readStatement
  split
  · exact bind_renumber (h.checkLabel_eq _) fun _ => rfl
  · split
    · rename_i name value hparts
      refine bind_renumber (h.checkLabel_eq name) fun _ => ?_
      unfold expression
      cases hparse : Expression.parse (String.ofList value) with
      | error e =>
        rw [h.line_eq]
        rfl
      | ok e =>
        have hvalue : Error.liftAt r'.line
            (e.eval (r'.env.labels r'.position.scope r'.position.active)) =
            renumber n id
              (Error.liftAt r.line (e.eval (r.env.labels r.position.scope r.position.active))) := by
          rw [h.line_eq, hagree name value e hparts hparse, renumber_liftAt]
        have hparsed (line : SourceLine) :
            Error.liftAt line (.ok e : Except ExprError Expression) = .ok e := rfl
        rw [hparsed, hparsed, ok_bind, ok_bind]
        exact bind_renumber hvalue fun v => rfl
    · rw [h.isa_eq, h.line_eq]
      split
      · exact bind_renumber (h.readDirective_eq cs) fun _ => rfl
      · split
        · split
          · rfl
          · dsimp only
            split <;> rfl
        · exact h.readInstruction_eq cs

end Reader

end Retarget
