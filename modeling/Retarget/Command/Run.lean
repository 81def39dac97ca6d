import Retarget.Assembly.Program
import Retarget.Command.Arguments

/-!
# Runs of the command

A run reads a configuration and a source file from a file tree, and says what it prints, which file
it writes and how it ends.
-/

namespace Retarget

/-- How a run ends. -/
structure Outcome where
  code : Nat
  stdout : String
  stderr : String
  /-- The file that is written. -/
  written : Option (Place × List UInt8)

namespace Command

/-- Print a line if the run is talkative. -/
def say (c : Command) (text : String) : Report Unit :=
  if 0 < c.options.verbosity then Report.print (text ++ "\n") else pure ()

/-- The format of a configuration, by the extension of its file. -/
def formatOf (path : String) : Except IsaError Isa.Format :=
  match WrittenPath.extension? path with
  | some "json" => .ok .json
  | some "yaml" | some "yml" => .ok .yaml
  | _ => .error (.unknownFileType path)

/-- Read the text of a configuration. -/
def readConfig (tree : FileTree) (directory : Place) (path : String) : Except IsaError String :=
  ((tree.resolve directory path).bind tree.read).mapError fun fault =>
    .unreadable path fault.message

/-- Read the instruction set. -/
def loadIsa (c : Command) (tree : FileTree) (directory : Place) : Report Isa := do
  match c.config with
  | none => Report.ofExcept (Error.fail IsaError.notGiven)
  | some path =>
    let text ← Report.ofExcept (Error.lift (readConfig tree directory path))
    let format ← Report.ofExcept (Error.lift (formatOf path))
    let spec ← Report.ofExcept (Error.lift (Isa.readSpec format text))
    match Isa.versionNote? spec with
    | some note => c.say note
    | none => pure ()
    let isa ← Report.ofExcept
      (Error.lift (Isa.ofSpec spec ((WrittenPath.stem? path).getD "isa")))
    c.say s!"Loaded ISA {isa.name} v{isa.version} from {path}"
    return isa

/-- Assemble the source file. -/
def assemble (c : Command) (tree : FileTree) (directory : Place) : Report Program := do
  let isa ← c.loadIsa tree directory
  Report.info s!"Assembling {c.file}"
  let job : Job := { tree, directory, source := c.file, options := c.options }
  let program ← job.assemble isa
  Report.info program.summary
  return program

/-- The bytes of the output file. -/
def outputBytes (c : Command) (p : Program) : Except HexError (List UInt8) :=
  if c.hex then do
    let lines ← (← p.toHex).render
    return (String.join (lines.map fun l => l ++ "\n")).toUTF8.toList
  else .ok p.image.toList

/-- Write the output. The file is made, and stays empty, also if its bytes cannot be. -/
def write (c : Command) (tree : FileTree) (directory : Place) (p : Program) :
    Option (Place × List UInt8) × Report Unit :=
  match tree.target directory c.outputPath with
  | .error fault => (none, Report.fail (Error.ofCause (ProgramError.file fault)))
  | .ok place =>
    match c.outputBytes p with
    | .error e => (some (place, []), Report.fail (Error.ofCause e))
    | .ok bytes =>
      (some (place, bytes), Report.print s!"wrote {p.image.size} bytes to {c.outputPath}\n")

/-- The end of a run that printed and perhaps wrote something. -/
def conclude (r : Report Unit) (written : Option (Place × List UInt8)) : Outcome :=
  let shown := String.join r.output
  match r.result with
  | .ok () => { code := 0, stdout := shown, stderr := "", written }
  | .error e =>
    { code := 1, stdout := shown ++ e.render ++ "\n", stderr := s!"Error: {e.renderFinal}\n",
      written }

/-- Run a command. -/
def run (c : Command) (tree : FileTree) (directory : Place) : Outcome :=
  let assembled := c.assemble tree directory
  match assembled.result with
  | .error e => conclude { messages := assembled.messages, result := .error e } none
  | .ok program =>
    if c.noOutput then conclude { messages := assembled.messages, result := .ok () } none
    else
      let (written, r) := c.write tree directory program
      conclude { messages := assembled.messages ++ r.messages, result := r.result } written

end Command

namespace Refusal

/-- How a run ends that assembles nothing. -/
def outcome : Refusal → Outcome
  | usage => { code := 2, stdout := "", stderr := "", written := none }
  | version =>
    { code := 0, stdout := s!"bespokeasm {assemblerVersion}\n", stderr := "", written := none }
  | help =>
    { code := 0, stdout := "Usage: bespokeasm [OPTIONS] <FILE>\n", stderr := "", written := none }

end Refusal

/-- Run the command with arguments. -/
def runArguments (args : List String) (tree : FileTree) (directory : Place) : Outcome :=
  match Command.ofArguments args with
  | .ok c => c.run tree directory
  | .error r => r.outcome

end Retarget
