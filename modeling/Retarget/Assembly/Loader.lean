import Retarget.Assembly.Session
import Retarget.Statement.Reader
import Retarget.Symbol.Directive
import Retarget.Text.Lines

/-!
# Loading source files

A file is read line by line into items. Directives change the session and the state of the file;
included files are loaded where they are included, each at most once.
-/

namespace Retarget

/-- A file that is being loaded. -/
structure Loading where
  session : Session
  place : Place
  /-- Number of the file. -/
  file : Nat
  fileScope : ScopeId
  position : Position
  conditions : Conditions
  /-- Named scopes made in the file and in those that it includes. -/
  created : NameSet
  /-- Named scopes that the file uses, and where. -/
  used : List (String × SourceLine)

/-- What is left when a file has been loaded. -/
structure Loaded where
  session : Session
  created : NameSet
  items : List Item

namespace Loading

/-- A line of the file. -/
def lineAt (l : Loading) (number : Nat) : SourceLine :=
  { file := some l.file, name := FileTable.displayName l.place.render, number }

/-- Give a warning. -/
def warn (l : Loading) (line : SourceLine) (text : String) : Report Loading := do
  return { l with session := ← l.session.warn line text }

/-- An item that does not count. -/
def inertItem (l : Loading) (line : SourceLine) (text comment : String) (muted : Bool) : Item :=
  { line, text, comment, zone := l.position.zone, scope := l.position.scope, active := [],
    compilable := false, muted, statement := .plain }

/-! ## Included files -/

/-- The directories in which the file looks for included ones, each once. -/
def directories (l : Loading) (search : List Place) : List Place :=
  (l.place.parent :: search).eraseDups

/-- Find an included file. -/
def findInclude (l : Loading) (tree : FileTree) (search : List Place) (name : String) :
    Except ProgramError Place :=
  let found := ((l.directories search).filterMap fun d => tree.locate? d name).eraseDups
  match found with
  | [] => .error (.includeMissing name)
  | [p] => .ok p
  | _ => .error (.includeAmbiguous name (found.map Place.render))

/-! ## Directives -/

/-- Make a zone. -/
def createZone (l : Loading) (line : SourceLine) (name : String) (first last : Int) :
    Except Error Loading := do
  let zones ← Error.liftAt line (l.session.zones.create first last name)
  return { l with session := { l.session with zones } }

/-- Make a named scope, which is active from here on. -/
def createScope (l : Loading) (line : SourceLine) (name lead : String) : Except Error Loading := do
  let named ← Error.liftAt line (l.session.named.create name lead line)
  return { l with
    session := { l.session with named }
    position := { l.position with active := l.position.active.activate name }
    created := l.created.insert name }

/-- Make a named scope the first active one. -/
def useScope (l : Loading) (line : SourceLine) (name : String) : Report Loading := do
  let l ←
    if l.position.active.head? == some name then
      l.warn line s!"Named scope {name} is already active; #use-scope has no effect"
    else pure l
  return { l with
    position := { l.position with active := l.position.active.activate name }
    used := l.used ++ [(name, line)] }

/-- Make a named scope inactive. -/
def deactivateScope (l : Loading) (line : SourceLine) (name : String) : Report Loading := do
  let l ←
    if l.position.active.contains name then pure l
    else l.warn line s!"Named scope {name} is not active; #deactivate-scope has no effect"
  return { l with position := { l.position with active := l.position.active.deactivate name } }

/-- Undo one muting. -/
def unmute (l : Loading) (line : SourceLine) : Report Loading :=
  match l.conditions.unmute? with
  | some conditions => pure { l with conditions }
  | none => l.warn line "#unmute without a matching #mute"

/-- Print a message, unless the file is muted or the run too quiet. -/
def printMessage (l : Loading) (level : Nat) (color : Option Color) (text : String) : Report Unit :=
  if l.conditions.isMuted || l.session.options.verbosity < level then pure ()
  else
    let shown := (color.map fun c => c.paint text).getD text
    Report.print (shown ++ "\n")

/-- Check a language requirement. -/
def require (l : Loading) (line : SourceLine) (requirement : String) : Report Unit := do
  match ← Report.ofExcept (Error.liftAt line (l.session.symbols.requireLanguage requirement)) with
  | some note => if 2 ≤ l.session.options.noteLevel then Report.print (note ++ "\n") else pure ()
  | none => pure ()

/-- How an included file is loaded, into a session and for a line. -/
abbrev Include := Session → Place → SourceLine → Report Loaded

/-- Load an included file. -/
def includeFile (l : Loading) (tree : FileTree) (search : List Place) (load : Include)
    (line : SourceLine) (name : String) : Report (Loading × List Item) := do
  let l ←
    if l.conditions.isMuted then
      l.warn line "#include does not inherit #mute; included file will emit bytecode"
    else pure l
  let place ← Report.ofExcept (Error.liftAt line (l.findInclude tree search name))
  if (l.session.files.find? place.render).isSome then
    Report.fail (Error.ofCauseAt line (ProgramError.includedTwice place.render))
  else
    let loaded ← load l.session place line
    let created := loaded.created.foldl (fun set n => NameSet.insert n set) l.created
    return ({ l with session := loaded.session, created }, loaded.items)

/-- Carry out a directive. -/
def process (l : Loading) (tree : FileTree) (search : List Place) (load : Include)
    (line : SourceLine) : Directive → Report (Loading × List Item)
  | .includeFile name => l.includeFile tree search load line name
  | .condition c =>
    let (conditions, result) := l.conditions.process l.session.symbols line c
    match result with
    | .ok _ => pure ({ l with conditions }, [])
    | .error e => Report.fail e
  | .define name value => do
    let symbols ← Report.ofExcept (Error.liftAt line (l.session.symbols.define name value line))
    return ({ l with session := { l.session with symbols } }, [])
  | .mute => pure ({ l with conditions := l.conditions.mute }, [])
  | .unmute => do return (← l.unmute line, [])
  | .raise text => Report.fail (Error.ofCauseAt line (DirectiveError.requested text))
  | .print level color text => do
    l.printMessage level color text
    return (l, [])
  | .require requirement => do
    l.require line requirement
    return (l, [])
  | .createZone name first last => do
    return (← Report.ofExcept (l.createZone line name first last), [])
  | .createScope name lead => do
    return (← Report.ofExcept (l.createScope line name lead), [])
  | .useScope name => do return (← l.useScope line name, [])
  | .deactivateScope name => do return (← l.deactivateScope line name, [])

/-! ## Lines -/

/-- Go to a zone, out of the block of local labels. -/
def enterZone (l : Loading) (zone : ZoneId) : Loading :=
  { l with position := { l.position with zone, scope := l.fileScope } }

/-- The number of a zone that a statement names. -/
def zoneNamed (l : Loading) (line : SourceLine) (name : String) : Except Error ZoneId :=
  match l.session.zones.find? name with
  | some z => .ok z
  | none => Error.failAt line (StatementError.unknownZone name)

/-- The zone of an origin without a zone. -/
def absoluteOrigin (l : Loading) (line : SourceLine) : Report Loading :=
  let zone := (l.session.zones.get l.position.zone).name
  if zone == ZoneMap.globalName then pure l
  else
    l.warn line
      s!".org without a memzone name uses an absolute address; current memzone is {zone}"

/-- What an item changes for the statements after it and for itself. -/
def track (l : Loading) (i : Item) : Report (Loading × Item) := do
  let settled (l : Loading) : Loading × Item :=
    (l, { i with zone := l.position.zone, scope := l.position.scope })
  match i.statement with
  | .label name =>
    if Tier.ofLabel name = .block then return (l, { i with scope := l.position.scope })
    else
      let (scopes, scope) := l.session.scopes.openBlock l.fileScope name
      return ({ l with
        session := { l.session with scopes }
        position := { l.position with scope } }, { i with scope })
  | .org _ (some name) => return settled (l.enterZone (← Report.ofExcept (l.zoneNamed i.line name)))
  | .org _ none => return settled ((← l.absoluteOrigin i.line).enterZone ZoneMap.globalId)
  | .setZone name => return settled (l.enterZone (← Report.ofExcept (l.zoneNamed i.line name)))
  | .constant name value =>
    let session ← Report.ofExcept (Error.liftAt i.line
      (l.session.bindLabel l.position.scope l.position.active name value i.line))
    return ({ l with session }, { i with scope := l.position.scope })
  | _ => return (l, { i with scope := l.position.scope })

/-- `track` for all items of a line. -/
def trackAll (l : Loading) : List Item → Report (Loading × List Item)
  | [] => pure (l, [])
  | i :: rest => do
    let (l, i) ← l.track i
    let (l, items) ← l.trackAll rest
    return (l, i :: items)

/-- The reader of a line. -/
def reader (l : Loading) (line : SourceLine) : Reader :=
  { env := l.session.env, symbols := l.session.symbols, position := l.position, line }

/-- Load a line that starts with a number sign, which `body` follows. Only conditional directives
count in an inactive block. -/
def loadDirective (l : Loading) (tree : FileTree) (search : List Place) (load : Include)
    (line : SourceLine) (active : Bool) (src body : List Char) : Report (Loading × List Item) := do
  let word := String.ofList ((Text.words body).head?.getD [])
  let (l, items) ←
    if active || Condition.isWord word then do
      let d ← Report.ofExcept (Directive.parse (String.ofList src) line)
      l.process tree search load line d
    else pure (l, [])
  return (l, items ++ [l.inertItem line (String.ofList src) "" false])

/-- Load a line. -/
def loadLine (l : Loading) (tree : FileTree) (search : List Place) (load : Include) (number : Nat)
    (src : List Char) : Report (Loading × List Item) := do
  let line := l.lineAt number
  let active ← Report.ofExcept (l.conditions.isActive l.session.symbols)
  match Text.trim src with
  | '#' :: body => l.loadDirective tree search load line active src body
  | _ =>
    let muted := l.conditions.isMuted
    if active then
      let l := { l with position := { l.position with compilable := true, muted } }
      l.trackAll (← Report.ofExcept ((l.reader line).readLine src))
    else
      let (code, comment) := Text.splitComment src
      return (l, [l.inertItem line (String.ofList (Text.trim code)) (String.ofList comment) muted])

/-- Load the lines of a file from the given number on. -/
def loadLines (l : Loading) (tree : FileTree) (search : List Place) (load : Include)
    (number : Nat) : List (List Char) → Report (Loading × List Item)
  | [] => pure (l, [])
  | src :: rest => do
    let (l, items) ← l.loadLine tree search load number src
    let (l, more) ← l.loadLines tree search load (number + 1) rest
    return (l, items ++ more)

/-- Warn of named scopes that the file uses but that neither it nor its included files make. -/
def checkUsed (l : Loading) : List (String × SourceLine) → Report Loading
  | [] => pure l
  | (name, line) :: rest =>
    if l.created.contains name then l.checkUsed rest
    else do
      let l ← l.warn line
        (s!"Named scope {name} used with #use-scope but not defined in this file " ++
          "or its includes")
      l.checkUsed rest

/-- Check a file of `count` lines at its end. -/
def finish (l : Loading) (count : Nat) : Report Loading := do
  match l.conditions.openLine with
  | some line => Report.fail (Error.ofCauseAt line ConditionError.neverClosed)
  | none =>
    let l ←
      if l.conditions.isMuted then
        l.warn (l.lineAt count) "File ended while muted; bytecode emission remains suppressed"
      else pure l
    l.checkUsed l.used

/-- Begin a file. -/
def start (s : Session) (place : Place) : Loading :=
  let (files, file) := s.files.add place.render
  let (scopes, scope) := s.scopes.openFile place.render
  { session := { s with files, scopes }
    place, file, fileScope := scope
    position :=
      { zone := ZoneMap.globalId, scope, active := [], compilable := true, muted := false }
    conditions := {}
    created := []
    used := [] }

/-- Load a file, with files included at most `depth` deep. `requester` is the line that includes
it. -/
def loadFile (tree : FileTree) (search : List Place) (depth : Nat) (s : Session) (place : Place)
    (requester : Option SourceLine) : Report Loaded := do
  match depth with
  | 0 => Report.fail { cause := .program (.includedTwice place.render), line := requester }
  | depth + 1 =>
    let text ← Report.ofExcept <|
      (tree.read place).mapError fun f => { cause := .program (.file f), line := requester }
    let l := start s place
    l.session.log 2 s!"Loading file: {place.render}"
    let lines := Text.lines text
    let load : Include := fun s place line => loadFile tree search depth s place (some line)
    let (l, items) ← l.loadLines tree search load 1 lines
    let l ← l.finish lines.length
    return { session := l.session, created := l.created, items }

end Loading

end Retarget
