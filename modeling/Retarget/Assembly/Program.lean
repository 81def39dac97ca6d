import Retarget.Assembly.Image
import Retarget.Assembly.Loader
import Retarget.Bits.Buffer
import Retarget.Hex.File

/-!
# Programs

A source file and all that it includes, assembled for an instruction set.
-/

namespace Retarget

/-- An assembled program. -/
structure Program where
  /-- The items in the order of their addresses. -/
  items : List CodedItem
  image : Array UInt8
  /-- The address of the first word of the image. -/
  start : Nat
  wordSize : Nat
  warnings : List String

namespace Program

/-- Some numbers about a program. -/
def summary (p : Program) : String :=
  let unmuted := p.items.filter fun i => !i.item.muted
  let words := unmuted.foldr (fun i n => i.place.wordCount + n) 0
  s!"{p.items.length} line objects, {words} words of bytecode, {p.image.size} byte image from " ++
    s!"address 0x{Text.hexLower p.start}, {p.warnings.length} warning(s)"

/-- The program as Intel HEX, whose addresses count bytes. -/
def toHex (p : Program) : Except HexError HexFile :=
  HexFile.ofImage (p.start * p.wordSize / 8) p.image.toList

end Program

/-- A source file for the assembler. -/
structure Job where
  tree : FileTree
  /-- The directory that written paths start from. -/
  directory : Place
  /-- The source file as it is written. -/
  source : String
  options : Options

namespace Job

/-- The directories in which included files are looked for: that of the source file, and those of
the options. An empty text stands for the directory that written paths start from. -/
def searchDirectories (j : Job) (place : Place) : List Place :=
  let given := j.options.includePaths.filterMap fun d =>
    if d.isEmpty then some j.directory else (j.tree.resolve j.directory d).toOption
  (place.parent :: given).eraseDups

/-- Items in the order of their addresses; those with one address stay in their order. -/
def sortItems (items : List PlacedItem) : List PlacedItem :=
  items.mergeSort fun a b => a.place.address ≤ b.place.address

/-- Assemble the source file. -/
def assemble (j : Job) (isa : Isa) : Report Program := do
  let place ← Report.ofExcept <| Error.lift <|
    (j.tree.resolve j.directory j.source).mapError (ProgramError.cannotOpen j.source)
  let s ← Report.ofExcept (Session.start isa j.options)
  let (s, blocks) ← Report.ofExcept (s.placeBlocks isa.blocks)
  s.log 1 s!"Assembling {place.render} for {isa.name} v{isa.version}"
  let loaded ←
    Loading.loadFile j.tree (j.searchDirectories place) (j.tree.files.length + 1) s place none
  let s := loaded.session
  s.log 2 s!"Loaded {loaded.items.length} line objects from {s.files.length} file(s)"
  s.log 2 "Pass 1: assigning addresses"
  let (s, placed) ← s.placeAll (loaded.items.filter Item.compilable)
  s.log 2 "Pass 2: generating bytecode"
  let (s, items) ← s.code (sortItems (placed ++ blocks))
  let words ← Report.ofExcept (Error.lift (Image.words isa j.options items))
  let image := wordsToBytes words true
  s.log 1 s!"Generated {image.size} bytes"
  return { items, image, start := j.options.start.getD 0, wordSize := isa.wordSize,
           warnings := s.warnings.map Warning.render }

end Job

end Retarget
