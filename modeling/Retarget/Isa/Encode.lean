import Retarget.Field.Layout
import Retarget.Isa.Model

/-!
# Encoding instructions

An instruction tries its variants in turn, and the first one that takes the operands gives the
fields. A macro does the same with its own variants, puts the operands into its templates and
encodes each of them as an instruction.
-/

namespace Retarget

/-! ## Templates -/

namespace Macro

/-- Replace the places for one kind of value of operand `n`; `value` is what they are replaced by,
or the error if there are such places and there is no value. -/
def fillPlaces (tag : String) (n : Nat) (value : Except InstructionError (List Char))
    (cs : List Char) : Except InstructionError (List Char) :=
  let place := s!"{tag}({n})".toList
  if Text.occursIn place cs then do
    return Text.replace place (← value) cs
  else .ok cs

/-- Replace the places for operand `n`. -/
def fillOperand (name : String) (step n : Nat) (o : MatchedOperand) (cs : List Char) :
    Except InstructionError (List Char) := do
  let argument :=
    match o.argumentText? with
    | some t => .ok t.toList
    | none => .error (.noArgument name step n)
  let register :=
    match o.register with
    | some r => .ok r.toList
    | none => .error (.noRegister name step n)
  let cs ← fillPlaces "@ARG" n argument cs
  let cs ← fillPlaces "@REG" n register cs
  fillPlaces "@OP" n (.ok o.text.toList) cs

/-- Replace the places for operands from `n` on. -/
def fillFrom (name : String) (step n : Nat) :
    List MatchedOperand → List Char → Except InstructionError (List Char)
  | [], cs => .ok cs
  | o :: rest, cs => do
    fillFrom name step (n + 1) rest (← fillOperand name step n o cs)

/-- Put operands into the template of a step. -/
def fill (name : String) (step : Nat) (operands : List MatchedOperand) (template : String) :
    Except InstructionError (List Char) := do
  let cs ← fillFrom name step 0 operands template.toList
  match ["@ARG", "@REG", "@OP"].find? fun tag => Text.occursIn tag.toList cs with
  | some tag => throw (.unresolved name tag step)
  | none => return cs

end Macro

/-! ## Variants -/

/-- Match operands against an optional list; without a list there may be none. -/
def OperandList.matchOptional (c : MatchContext) (texts : List (List Char)) :
    Option OperandList → Except Error (Option MatchedOperands)
  | some l => l.matchTexts c texts
  | none => .ok (if texts.isEmpty then some {} else none)

namespace Instruction

/-- The fields of the first variant that takes the operands. -/
def encodeFirst (c : MatchContext) (texts : List (List Char)) :
    List Variant → Except Error (Option (List Field))
  | [] => .ok none
  | v :: rest => do
    match ← OperandList.matchOptional c texts v.operands with
    | some m => return some (m.fields (some (v.opcode.field c.line)) (v.opcode.suffixField c.line))
    | none => encodeFirst c texts rest

/-- Encode an instruction with its operands. -/
def encode (i : Instruction) (c : MatchContext) (wordSize : Nat) (texts : List (List Char)) :
    Except Error Encoding := do
  match ← encodeFirst c texts i.variants with
  | some fields => return { line := c.line, fields, wordSize }
  | none => Error.failAt c.line (InstructionError.noVariant i.mnemonic)

end Instruction

namespace Macro

/-- The first variant that takes the operands, and how it does. -/
def matchFirst (c : MatchContext) (texts : List (List Char)) :
    List MacroVariant → Except Error (Option (MacroVariant × MatchedOperands))
  | [] => .ok none
  | v :: rest => do
    match ← OperandList.matchOptional c texts v.operands with
    | some m => return some (v, m)
    | none => matchFirst c texts rest

end Macro

namespace Isa

/-- How deeply macros may stand in macros. -/
def maxMacroDepth : Nat := 16

/-- The mnemonic of an instruction in lower case, and the texts of its operands. -/
def splitInstruction (cs : List Char) : String × List (List Char) :=
  let (word, rest) := Text.splitWord (Text.trim cs)
  (Text.lower (String.ofList word), Text.splitOperands (rest.getD []))

/-- What matching depends on, at a line. -/
def matchContext (isa : Isa) (zones : ZoneMap) (line : SourceLine) : MatchContext :=
  { line, registers := isa.registers, zones }

/-- Encode an instruction in which macros may be nested `depth` deep. -/
def encodeAt (isa : Isa) (zones : ZoneMap) (depth : Nat) (line : SourceLine) (cs : List Char) :
    Except Error Encoding := do
  let (mnemonic, texts) := splitInstruction cs
  let c := isa.matchContext zones line
  match isa.instructions.find? mnemonic with
  | none => Error.failAt line (InstructionError.unknownMnemonic mnemonic)
  | some (.instruction i) => i.encode c isa.wordSize texts
  | some (.expansion m) =>
    match depth with
    | 0 => Error.failAt line (InstructionError.tooDeep m.mnemonic maxMacroDepth)
    | depth + 1 =>
      match ← Macro.matchFirst c texts m.variants with
      | none => Error.failAt line (InstructionError.noVariant m.mnemonic)
      | some (v, operands) =>
        let steps ← v.templates.zipIdx.mapM fun (template, step) => do
          let text ← Error.liftAt line (Macro.fill m.mnemonic step operands.operands template)
          isa.encodeAt zones depth (line.inMacro m.mnemonic step) text
        return Encoding.concat line steps isa.wordSize

/-- Encode an instruction. -/
def encode (isa : Isa) (zones : ZoneMap) (line : SourceLine) (cs : List Char) :
    Except Error Encoding :=
  isa.encodeAt zones maxMacroDepth line cs

end Isa

end Retarget
