import Mathlib.Data.List.Forall2
import Retarget.Isa.Instruction

/-!
# Mnemonics as positions

An instruction with other names stands once in a list of operations, and each of its names is kept
with the position of the operation. This is the table in that form, built in the same order as
`InstructionSet`, in which each name is kept with the operation itself.

* `IndexTable.Holds`: the entries are the operations at the positions;
* `IndexTable.Agrees`: two computations end with the same error or with related tables, with
  `Agrees.bind` and `Agrees.foldlM` for steps one after the other;
* `IndexTable.ofSpec_agrees`: both tables are built or refused together, with the same error, and
  find the same operations.
-/

namespace Retarget

/-- All operations, and for each mnemonic in lower case the position of its operation. -/
structure IndexTable where
  operations : List Operation
  indexes : List (String × Nat)

namespace IndexTable

/-- The operation at the position of a mnemonic, in any letter case. -/
def find? (x : IndexTable) (mnemonic : String) : Option Operation :=
  (x.indexes.lookup (Text.lower mnemonic)).bind (x.operations[·]?)

/-- Whether a mnemonic has a position, in any letter case. -/
def contains (x : IndexTable) (mnemonic : String) : Bool :=
  (x.indexes.lookup (Text.lower mnemonic)).isSome

/-- Add a mnemonic in lower case with a position. -/
def register (x : IndexTable) (what mnemonic : String) (index : Nat) :
    Except IsaError IndexTable :=
  if isKeyword mnemonic then .error (.keyword what mnemonic)
  else if (x.indexes.lookup mnemonic).isSome then .error (.duplicateMnemonic mnemonic)
  else .ok { x with indexes := x.indexes ++ [(mnemonic, index)] }

/-- Add an operation behind the others. -/
def push (x : IndexTable) (operation : Operation) : IndexTable :=
  { x with operations := x.operations ++ [operation] }

/-- Check an instruction, add it, and add its names with its position. -/
def addInstruction (sets : NameTable OperandSet) (defaults : EncodingDefaults) (x : IndexTable)
    (entry : String × InstructionSpec) : Except IsaError IndexTable := do
  let mnemonic := Text.lower entry.1
  let operation := Operation.instruction (← Instruction.ofSpec sets defaults mnemonic entry.2)
  let index := x.operations.length
  let x ← (x.push operation).register "instruction" mnemonic index
  entry.2.aliases.foldlM (fun x name => x.register "alias" (Text.lower name) index) x

/-- Check a macro, add it, and add its name with its position. -/
def addMacro (sets : NameTable OperandSet) (defaults : EncodingDefaults) (x : IndexTable)
    (entry : String × MacroSpec) : Except IsaError IndexTable := do
  let mnemonic := Text.lower entry.1
  if (x.indexes.lookup mnemonic).isSome then
    throw (.macroShadows mnemonic)
  let operation := Operation.expansion (← Macro.ofSpec sets defaults mnemonic entry.2)
  (x.push operation).register "macro" mnemonic x.operations.length

/-- Check all instructions and macros. -/
def ofSpec (sets : NameTable OperandSet) (defaults : EncodingDefaults)
    (instructions : List (String × InstructionSpec)) (macros : List (String × MacroSpec)) :
    Except IsaError IndexTable := do
  let x ← instructions.foldlM (addInstruction sets defaults) { operations := [], indexes := [] }
  macros.foldlM (addMacro sets defaults) x

/-! ## The same entries -/

variable {x : IndexTable} {s : InstructionSet} {name what : String} {operation : Operation}
  {index : Nat}

/-- The entries are the operations at the positions. So every position is that of an operation. -/
def Holds (x : IndexTable) (s : InstructionSet) : Prop :=
  List.Forall₂ (fun e entry => e.1 = entry.1 ∧ x.operations[e.2]? = some entry.2)
    x.indexes s.entries

theorem Holds.push (h : x.Holds s) (operation : Operation) : (x.push operation).Holds s := by
  refine List.Forall₂.imp (fun e entry hentry => ⟨hentry.1, ?_⟩) h
  obtain ⟨hlt, -⟩ := List.getElem?_eq_some_iff.mp hentry.2
  exact (List.getElem?_append_left hlt).trans hentry.2

/-- A name has a position if it has an entry, and the entry is what stands there. -/
theorem Holds.lookup (h : x.Holds s) (name : String) :
    (x.indexes.lookup name).isSome = (s.entries.lookup name).isSome ∧
      (x.indexes.lookup name).bind (x.operations[·]?) = s.entries.lookup name := by
  obtain ⟨operations, indexes⟩ := x
  obtain ⟨entries⟩ := s
  unfold Holds at h
  dsimp only at h ⊢
  induction h with
  | nil => exact ⟨rfl, rfl⟩
  | @cons e entry indexes entries hentry hrest ih =>
    obtain ⟨key, index⟩ := e
    obtain ⟨key', operation⟩ := entry
    obtain ⟨rfl, hoperation⟩ := hentry
    rw [List.lookup_cons, List.lookup_cons]
    cases name == key with
    | true => exact ⟨rfl, hoperation⟩
    | false => exact ih

/-! ## The same steps -/

/-- Two computations end with the same error, or with related tables. -/
inductive Agrees (R : IndexTable → InstructionSet → Prop) :
    Except IsaError IndexTable → Except IsaError InstructionSet → Prop
  | ok {x : IndexTable} {s : InstructionSet} (h : R x s) : Agrees R (.ok x) (.ok s)
  | error (e : IsaError) : Agrees R (.error e) (.error e)

namespace Agrees

variable {R R' : IndexTable → InstructionSet → Prop} {a : Except IsaError IndexTable}
  {b : Except IsaError InstructionSet}

theorem bind {f : IndexTable → Except IsaError IndexTable}
    {g : InstructionSet → Except IsaError InstructionSet} (h : Agrees R a b)
    (hstep : ∀ x s, R x s → Agrees R' (f x) (g s)) : Agrees R' (a >>= f) (b >>= g) := by
  cases h with
  | ok h => exact hstep _ _ h
  | error e => exact .error e

/-- A check that both make first. -/
theorem bind_left {α : Type} (c : Except IsaError α) {f : α → Except IsaError IndexTable}
    {g : α → Except IsaError InstructionSet} (h : ∀ v, Agrees R (f v) (g v)) :
    Agrees R (c >>= f) (c >>= g) := by
  cases c with
  | error e => exact .error e
  | ok v => exact h v

theorem imp (h : Agrees R a b) (himp : ∀ x s, R x s → R' x s) : Agrees R' a b := by
  cases h with
  | ok h => exact .ok (himp _ _ h)
  | error e => exact .error e

theorem foldlM {α : Type} {f : IndexTable → α → Except IsaError IndexTable}
    {g : InstructionSet → α → Except IsaError InstructionSet}
    (hstep : ∀ x s i, R x s → Agrees R (f x i) (g s i)) (items : List α) :
    ∀ {x s}, R x s → Agrees R (items.foldlM f x) (items.foldlM g s) := by
  induction items with
  | nil => exact fun h => .ok h
  | cons i items ih =>
    intro x s h
    rw [List.foldlM_cons, List.foldlM_cons]
    exact (hstep x s i h).bind fun _ _ h => ih h

end Agrees

/-- The entries are the operations at the positions, and one more position is that of an
operation. -/
def HoldsWith (index : Nat) (operation : Operation) (x : IndexTable) (s : InstructionSet) : Prop :=
  x.Holds s ∧ x.operations[index]? = some operation

theorem Holds.pushed (h : x.Holds s) (operation : Operation) :
    HoldsWith x.operations.length operation (x.push operation) s :=
  ⟨h.push operation, List.getElem?_concat_length⟩

/-- A name is added to both tables, or is refused by both for the same reason. -/
theorem register_agrees (h : HoldsWith index operation x s) :
    Agrees (HoldsWith index operation) (x.register what name index)
      (s.register what name operation) := by
  obtain ⟨h, hindex⟩ := h
  unfold register InstructionSet.register
  rw [(h.lookup name).1]
  split
  · exact .error _
  split
  · exact .error _
  · exact .ok ⟨List.rel_append h (.cons ⟨rfl, hindex⟩ .nil), hindex⟩

theorem registerAll_agrees (names : List String) (h : HoldsWith index operation x s) :
    Agrees (HoldsWith index operation)
      (names.foldlM (fun x name => x.register what (Text.lower name) index) x)
      (names.foldlM (fun s name => s.register what (Text.lower name) operation) s) := by
  refine Agrees.foldlM (fun x s name h => ?_) names h
  exact register_agrees h

variable (sets : NameTable OperandSet) (defaults : EncodingDefaults)

/-- The names of an instruction all get the position that it is pushed to. -/
theorem addInstruction_agrees (h : x.Holds s) (entry : String × InstructionSpec) :
    Agrees Holds (addInstruction sets defaults x entry)
      (InstructionSet.addInstruction sets defaults s entry) := by
  unfold addInstruction InstructionSet.addInstruction
  dsimp only
  refine Agrees.bind_left _ fun i => ?_
  -- the relation is given, since it cannot be read off the steps that keep it
  refine Agrees.bind (R := HoldsWith x.operations.length (.instruction i)) ?_ fun x' s' h' => ?_
  · exact register_agrees (h.pushed (.instruction i))
  · refine Agrees.imp (R := HoldsWith x.operations.length (.instruction i)) ?_ fun _ _ h => h.1
    exact registerAll_agrees entry.2.aliases h'

theorem addMacro_agrees (h : x.Holds s) (entry : String × MacroSpec) :
    Agrees Holds (addMacro sets defaults x entry)
      (InstructionSet.addMacro sets defaults s entry) := by
  unfold addMacro InstructionSet.addMacro
  dsimp only
  rw [(h.lookup _).1]
  split
  · exact .error (.macroShadows (Text.lower entry.1))
  · refine Agrees.bind_left _ fun m => ?_
    exact (register_agrees (h.pushed (.expansion m))).imp fun _ _ h => h.1

/-- **The two tables agree**: they are refused together, with the same error, and if they are built
then they have the same mnemonics and each of them finds the same operation. -/
theorem ofSpec_agrees (instructions : List (String × InstructionSpec))
    (macros : List (String × MacroSpec)) :
    Agrees (fun x s => ∀ mnemonic, x.contains mnemonic = s.contains mnemonic ∧
        x.find? mnemonic = s.find? mnemonic)
      (ofSpec sets defaults instructions macros)
      (InstructionSet.ofSpec sets defaults instructions macros) := by
  have hempty : Holds { operations := [], indexes := [] } { entries := [] } := .nil
  have hbuilt : Agrees Holds (ofSpec sets defaults instructions macros)
      (InstructionSet.ofSpec sets defaults instructions macros) := by
    refine (Agrees.foldlM ?_ instructions hempty).bind fun x s h => Agrees.foldlM ?_ macros h
    · exact fun x s entry h => addInstruction_agrees sets defaults h entry
    · exact fun x s entry h => addMacro_agrees sets defaults h entry
  exact hbuilt.imp fun x s h mnemonic => h.lookup (Text.lower mnemonic)

end IndexTable

end Retarget
