import Retarget.Isa.Match

/-!
# Operand lists

An instruction takes particular tuples of operands, and failing those one operand of a set for each
place. The fields of the operands are put around the code bits of the instruction.
-/

namespace Retarget

/-- Particular operands, some of which may take no text. -/
structure OperandTuple where
  operands : List Operand
  reversal : Reversal
  deriving Repr

/-- One operand set for each place. -/
structure SetList where
  sets : List OperandSet
  /-- Combinations of operands that are refused. -/
  disallowed : List (List String)
  reversal : Reversal
  deriving Repr

/-- The operands that an instruction takes. -/
structure OperandList where
  count : Nat
  tuples : List OperandTuple
  sets : Option SetList
  deriving Repr

/-- The operands of one instruction, in their order in the source. -/
structure MatchedOperands where
  operands : List MatchedOperand := []
  reversal : Reversal := {}
  deriving Repr

namespace MatchedOperands

/-- The code bits of the operands that go to a place, in the order of the operands. -/
def codesAt (m : MatchedOperands) (place : CodePlace) : List Field :=
  m.operands.filterMap fun o => if o.place = place then o.code else none

/-- The fields of an instruction: code bits of operands that go before its own, the last operand
first; its own; code bits of the other operands; its suffix; the arguments. -/
def fields (m : MatchedOperands) (own suffix : Option Field) : List Field :=
  let before := (m.codesAt .before).reverse
  let after := m.codesAt .after
  let arguments := m.operands.filterMap MatchedOperand.argument
  let turn (reverse : Bool) (fs : List Field) : List Field := if reverse then fs.reverse else fs
  turn m.reversal.codes before ++ own.toList ++ turn m.reversal.codes after ++ suffix.toList ++
    turn m.reversal.arguments arguments

end MatchedOperands

namespace OperandTuple

/-- Match texts against operands one by one; operands that take no text get none. -/
def matchEach (c : MatchContext) :
    List Operand → List (List Char) → Except Error (Option (List MatchedOperand))
  | [], _ => .ok (some [])
  | o :: rest, texts => do
    if o.isEmpty then
      match ← o.matchText c [] with
      | none => return none
      | some m => return (← matchEach c rest texts).map (m :: ·)
    else
      match texts with
      | [] => return none
      | t :: more =>
        match ← o.matchText c t with
        | none => return none
        | some m => return (← matchEach c rest more).map (m :: ·)

/-- Match texts against a tuple of an instruction with `count` operands. -/
def matchTexts (t : OperandTuple) (c : MatchContext) (count : Nat) (texts : List (List Char)) :
    Except Error (Option MatchedOperands) := do
  let empty := (t.operands.filter Operand.isEmpty).length
  if t.operands.length = count ∧ texts.length + empty = count then
    return (← matchEach c t.operands texts).map fun operands => { operands, reversal := t.reversal }
  else return none

end OperandTuple

namespace SetList

/-- Match texts against sets, place by place. -/
def matchEach (c : MatchContext) :
    List (OperandSet × List Char) → Except Error (Option (List MatchedOperand))
  | [] => .ok (some [])
  | (set, text) :: rest => do
    match ← Operand.matchFirst c text set.operands with
    | none => return none
    | some m => return (← matchEach c rest).map (m :: ·)

/-- Match texts against one set for each. -/
def matchTexts (s : SetList) (c : MatchContext) (texts : List (List Char)) :
    Except Error (Option MatchedOperands) := do
  if texts.length = s.sets.length then
    match ← matchEach c (s.sets.zip texts) with
    | none => return none
    | some operands =>
      if s.disallowed.contains (operands.map MatchedOperand.id) then return none
      else return some { operands, reversal := s.reversal }
  else return none

end SetList

namespace OperandList

/-- The match of the first tuple that takes some texts. -/
def matchTuples (c : MatchContext) (count : Nat) (texts : List (List Char)) :
    List OperandTuple → Except Error (Option MatchedOperands)
  | [] => .ok none
  | t :: rest => do
    match ← t.matchTexts c count texts with
    | some m => return some m
    | none => matchTuples c count texts rest

/-- Match the operands of an instruction; none if they are not for this list. -/
def matchTexts (l : OperandList) (c : MatchContext) (texts : List (List Char)) :
    Except Error (Option MatchedOperands) := do
  if l.count = 0 ∧ texts = [] then return some {}
  else
    match ← matchTuples c l.count texts l.tuples with
    | some m => return some m
    | none =>
      match l.sets with
      | some s => s.matchTexts c texts
      | none => return none

/-! ## Checking -/

/-- Check the tuples of an instruction. -/
def tuplesOf (defaults : EncodingDefaults) (instruction : String) (spec : OperandsSpec) :
    Except IsaError (List OperandTuple) :=
  (spec.tuples.getD []).mapM fun (_, t) => do
    let operands ← t.operands.mapM fun (id, o) =>
      (Operand.ofSpec defaults id o).mapError fun f => .specificOperand instruction f.1 f.2
    return { operands, reversal := t.reversal }

/-- Check the operand sets of an instruction with `count` operands. -/
def setsOf (sets : NameTable OperandSet) (instruction : String) (count : Nat) (spec : SetsSpec) :
    Except IsaError SetList := do
  match spec.names with
  | none => throw (.noSetList instruction)
  | some names =>
    let found ← names.mapM fun name =>
      match sets.lookup name with
      | some set => .ok set
      | none => .error (.unknownSet instruction name)
    if found.length = count then
      return { sets := found, disallowed := spec.disallowed, reversal := spec.reversal }
    else throw (.setCount found.length count instruction)

/-- Check the operands of an instruction. -/
def ofSpec (sets : NameTable OperandSet) (defaults : EncodingDefaults) (instruction : String)
    (spec : OperandsSpec) : Except IsaError OperandList := do
  match spec.count with
  | none => throw (.noCount instruction)
  | some count =>
    let tuples ← tuplesOf defaults instruction spec
    let sets ← spec.sets.mapM (setsOf sets instruction count)
    return { count, tuples, sets }

end OperandList

end Retarget
