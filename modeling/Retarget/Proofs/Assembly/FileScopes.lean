import Retarget.Proofs.Assembly.LocalLabels
import Retarget.Proofs.Assembly.Requests

/-!
# The scope of a file

While a file is loaded, its current scope stays inside the scope of the file: it is that scope, or a
block in it. Scopes that other files open meanwhile do not change what encloses the scopes that are
there.

* `ScopeTree.GrownTo`: a later tree, in which the same scopes enclose the old ones;
* `Loading.InFile`: the current scope is inside the scope of the file;
* `Loading.loadLine_within`: a line keeps this, with all that it includes;
* `Loading.Arises`, `Loading.Arises.inFile`: so it holds of every state of the loader in a run.
-/

namespace Retarget

/-! ## Trees that grow -/

namespace ScopeTree

variable {t t' t'' : ScopeTree}

/-- A later tree: scopes were opened and labels bound. -/
structure GrownTo (t t' : ScopeTree) : Prop where
  wellFormed : t'.WellFormed
  length_le : t.scopes.length ≤ t'.scopes.length
  enclosing_eq : ∀ id < t.scopes.length, ∀ tier, t'.enclosing id tier = t.enclosing id tier

theorem GrownTo.refl (h : t.WellFormed) : t.GrownTo t := ⟨h, Nat.le_refl _, fun _ _ _ => rfl⟩

theorem GrownTo.trans (h : t.GrownTo t') (h' : t'.GrownTo t'') : t.GrownTo t'' where
  wellFormed := h'.wellFormed
  length_le := Nat.le_trans h.length_le h'.length_le
  enclosing_eq id hid tier :=
    (h'.enclosing_eq id (Nat.lt_of_lt_of_le hid h.length_le) tier).trans
      (h.enclosing_eq id hid tier)

theorem GrownTo.apply (h : t.WellFormed) (call : Call) (hvalid : call.Valid t) :
    t.GrownTo (t.apply call) :=
  ⟨h.apply hvalid, (h.enclosing_apply hvalid).1, (h.enclosing_apply hvalid).2⟩

theorem GrownTo.bind (h : t.WellFormed) {id : ScopeId} {label : String} {value : Int}
    {line : SourceLine} (hbind : t.bind id label value line = .ok t') : t.GrownTo t' := by
  obtain ⟨target, s, bindings, htarget, -⟩ := bind_eq_ok hbind
  have hgrown := GrownTo.apply h (.bind id label value line) (lt_of_enclosing_eq_some htarget)
  rwa [ScopeTree.apply, hbind] at hgrown

/-- The way outwards from a new block in a file. -/
theorem enclosing_openBlock {file : ScopeId} (hfile : t.enclosing file .file = some file)
    (label : String) (tier : Tier) :
    (t.openBlock file label).1.enclosing (t.openBlock file label).2 tier =
      if tier = .block then some t.scopes.length else t.enclosing file tier := by
  have hlt : file < t.scopes.length := lt_of_enclosing_eq_some hfile
  have hold (id : ScopeId) (hid : id < t.scopes.length) :
      (t.openBlock file label).1.enclosing id tier = t.enclosing id tier :=
    enclosing_append hid _ tier
  have hnew : (t.openBlock file label).1.scopes[t.scopes.length]? =
      some { tier := .block, parent := some file, reference := label } := by
    rw [openBlock, hfile]
    exact List.getElem?_concat_length
  show (t.openBlock file label).1.enclosing t.scopes.length tier = _
  rw [enclosing, hnew]
  cases tier <;> simp [Tier.depth, hlt, hold file hlt]

/-- A new block sees what its file sees, and no local labels. -/
theorem lookup_openBlock (h : t.WellFormed) {file scope : ScopeId}
    (hfile : t.enclosing file .file = some file) (hscope : t.enclosing scope .file = some file)
    (label name : String) :
    (t.openBlock file label).1.lookup (t.openBlock file label).2 name =
      if Tier.ofLabel name = .block then none else t.lookup scope name := by
  have hway := enclosing_openBlock hfile label (Tier.ofLabel name)
  rw [lookup, hway]
  split
  · simp [openBlock, Bindings.find?]
  · rename_i htier
    have hsame : t.enclosing file (Tier.ofLabel name) = t.enclosing scope (Tier.ofLabel name) := by
      cases hname : Tier.ofLabel name with
      | everywhere =>
        rw [h.enclosing_everywhere (lt_of_enclosing_eq_some hfile),
          h.enclosing_everywhere (lt_of_enclosing_eq_some hscope)]
      | file => rw [hfile, hscope]
      | block => exact absurd hname htier
    rw [hsame, lookup]
    cases htarget : t.enclosing scope (Tier.ofLabel name) with
    | none => rfl
    | some target =>
      have hlt : target < t.scopes.length :=
        Nat.lt_of_le_of_lt (enclosing_eq_some htarget).1 (lt_of_enclosing_eq_some htarget)
      have hold : (t.openBlock file label).1.scopes[target]? = t.scopes[target]? :=
        List.getElem?_append_left hlt
      rw [Option.bind_eq_bind, Option.bind_some, hold]
      rfl

end ScopeTree

/-! ## Files that are being loaded -/

namespace Loading

variable {l l' : Loading} {tree : FileTree} {search : List Place} {load : Include}
  {line : SourceLine}
  {r : Loading × List Item}

/-- The current scope is inside the scope of the file. -/
structure InFile (l : Loading) : Prop where
  wellFormed : l.session.scopes.WellFormed
  file_eq : l.session.scopes.enclosing l.fileScope .file = some l.fileScope
  scope_eq : l.session.scopes.enclosing l.position.scope .file = some l.fileScope

/-- A step that keeps to the file while the tree of scopes grows. -/
structure Within (l l' : Loading) : Prop where
  grown : l.session.scopes.GrownTo l'.session.scopes
  inFile : l'.InFile

theorem Within.trans {l'' : Loading} (h : l.Within l') (h' : l'.Within l'') : l.Within l'' :=
  ⟨h.grown.trans h'.grown, h'.inFile⟩

/-- A step that stays in its scope or goes back to that of the file. -/
theorem InFile.within (h : l.InFile) (hgrown : l.session.scopes.GrownTo l'.session.scopes)
    (hfile : l'.fileScope = l.fileScope)
    (hscope : l'.position.scope = l.position.scope ∨ l'.position.scope = l.fileScope) :
    l.Within l' := by
  have hkeeps {id : ScopeId} (hid : l.session.scopes.enclosing id .file = some l.fileScope) :
      l'.session.scopes.enclosing id .file = some l.fileScope := by
    rw [hgrown.enclosing_eq id (ScopeTree.lt_of_enclosing_eq_some hid), hid]
  refine ⟨hgrown, hgrown.wellFormed, ?_, ?_⟩
  · rw [hfile]
    exact hkeeps h.file_eq
  · rw [hfile]
    rcases hscope with hscope | hscope
    · rw [hscope]
      exact hkeeps h.scope_eq
    · rw [hscope]
      exact hkeeps h.file_eq

theorem InFile.within_of_calm (h : l.InFile) (hcalm : l.Calm l') : l.Within l' := by
  refine h.within ?_ hcalm.fileScope_eq (.inl hcalm.scope_eq)
  rw [hcalm.scopes_eq]
  exact .refl h.wellFormed

theorem InFile.within_enterZone (h : l.InFile) (zone : ZoneId) : l.Within (l.enterZone zone) :=
  h.within (.refl h.wellFormed) rfl (.inr rfl)

/-- The file in the block of a label that is not local. -/
def openBlock (l : Loading) (name : String) : Loading :=
  { l with
    session := { l.session with scopes := (l.session.scopes.openBlock l.fileScope name).1 }
    position := { l.position with scope := (l.session.scopes.openBlock l.fileScope name).2 } }

theorem InFile.within_openBlock (h : l.InFile) (name : String) : l.Within (l.openBlock name) := by
  have hgrown : l.session.scopes.GrownTo (l.session.scopes.openBlock l.fileScope name).1 :=
    .apply h.wellFormed (.openBlock l.fileScope name) (ScopeTree.lt_of_enclosing_eq_some h.file_eq)
  refine ⟨hgrown, hgrown.wellFormed, ?_, ?_⟩
  · exact (hgrown.enclosing_eq _ (ScopeTree.lt_of_enclosing_eq_some h.file_eq) _).trans h.file_eq
  · exact (ScopeTree.enclosing_openBlock h.file_eq name .file).trans h.file_eq

theorem InFile.within_bindLabel (h : l.InFile) {name : String} {value : Int} {session : Session}
    (hbind : l.session.bindLabel l.position.scope l.position.active name value line = .ok session) :
    l.Within { l with session } := by
  rcases Session.bindLabel_eq_ok hbind with ⟨named, -, rfl⟩ | ⟨scopes, -, hscopes, rfl⟩
  · exact h.within (.refl h.wellFormed) rfl (.inl rfl)
  · exact h.within (.bind h.wellFormed hscopes) rfl (.inl rfl)

/-! ## Lines -/

theorem track_within (h : l.InFile) (i : Item) :
    Gives (fun r => l.Within r.1) (l.track i).result := by
  have hstays : l.Within l := h.within_of_calm (.refl l)
  unfold track
  split
  · split
    · exact .pure hstays
    · exact .pure (h.within_openBlock _)
  · exact Report.gives_of_bind fun zone => .pure (h.within_enterZone zone)
  · refine Report.gives_bind absoluteOrigin_steady fun l' hsteady => .pure ?_
    have hwithin := h.within_of_calm hsteady.calm
    exact hwithin.trans (hwithin.inFile.within_enterZone _)
  · exact Report.gives_of_bind fun zone => .pure (h.within_enterZone zone)
  · intro r hr
    obtain ⟨session, hbind, hr⟩ := Report.result_bind_eq_ok.mp hr
    cases hr
    exact h.within_bindLabel (Error.liftAt_eq_ok.mp hbind)
  · exact .pure hstays

theorem trackAll_within (h : l.InFile) (items : List Item) :
    Gives (fun r => l.Within r.1) (l.trackAll items).result := by
  induction items generalizing l with
  | nil => exact .pure (h.within_of_calm (.refl l))
  | cons i rest ih =>
    exact Report.gives_bind (track_within h i) fun _ hfirst =>
      Report.gives_bind (ih hfirst.inFile) fun _ hrest => .pure (hfirst.trans hrest)

/-- Loading another file only adds to the tree of scopes. -/
def GrowsScopes (load : Include) : Prop :=
  ∀ s place line, s.scopes.WellFormed →
    Gives (fun r => s.scopes.GrownTo r.session.scopes) (load s place line).result

theorem process_within (hload : GrowsScopes load) (h : l.InFile) (d : Directive) :
    Gives (fun r => l.Within r.1) (l.process tree search load line d).result := by
  intro r hr
  rcases process_eq_ok hr with ⟨name, -, hinclude⟩ | ⟨c, conditions, -, -, rfl⟩ | ⟨hsteady, -⟩
  · obtain ⟨l', place, loaded, hwarn, -, -, hloaded, rfl⟩ := includeFile_eq_ok hinclude
    have hwithin := h.within_of_calm (warnMuted_steady hwarn).calm
    have hgrown := hload _ _ _ hwithin.inFile.wellFormed loaded hloaded
    have hresumed : l'.Within (l'.resume loaded) := hwithin.inFile.within hgrown rfl (.inl rfl)
    exact hwithin.trans hresumed
  · exact h.within_of_calm ⟨rfl, rfl, id, rfl, rfl, rfl⟩
  · exact h.within_of_calm hsteady.calm

/-- **A line keeps to its file.** -/
theorem loadLine_within (hload : GrowsScopes load) (h : l.InFile) (number : Nat) (src : List Char) :
    Gives (fun r => l.Within r.1) (l.loadLine tree search load number src).result := by
  intro r hr
  rcases loadLine_eq_ok hr with ⟨d, l', items, -, hprocess, rfl⟩ | ⟨text, comment, muted, rfl⟩ |
    ⟨items, -, htrack⟩
  · exact process_within hload h d (l', items) hprocess
  · exact h.within_of_calm (.refl l)
  · have hwithin : l.Within l.atStatement := h.within_of_calm ⟨rfl, rfl, id, rfl, rfl, rfl⟩
    exact hwithin.trans (trackAll_within hwithin.inFile items r htrack)

theorem loadLines_within (hload : GrowsScopes load) (h : l.InFile) (number : Nat)
    (lines : List (List Char)) :
    Gives (fun r => l.Within r.1) (l.loadLines tree search load number lines).result := by
  induction lines generalizing l number with
  | nil => exact .pure (h.within_of_calm (.refl l))
  | cons src rest ih =>
    exact Report.gives_bind (loadLine_within hload h number src) fun r hr =>
      Report.gives_bind (ih hr.inFile (number + 1)) fun r' hr' => .pure (hr.trans hr')

/-! ## Files -/

/-- A file begins in a scope of its own. -/
theorem start_inFile {s : Session} (h : s.scopes.WellFormed) (place : Place) :
    s.scopes.GrownTo (start s place).session.scopes ∧ (start s place).InFile := by
  have hgrown : s.scopes.GrownTo (start s place).session.scopes :=
    .apply h (.openFile place.render) trivial
  have hself : (start s place).session.scopes.enclosing (start s place).fileScope .file =
      some (start s place).fileScope := by
    have hscope : (start s place).session.scopes.scopes[(start s place).fileScope]? =
        some ⟨.file, some ScopeTree.globalId, place.render, []⟩ := List.getElem?_concat_length
    exact ScopeTree.enclosing_self hscope
  exact ⟨hgrown, hgrown.wellFormed, hself, hself⟩

theorem loadFile_grows (tree : FileTree) (search : List Place) (depth : Nat) (s : Session)
    (place : Place) (requester : Option SourceLine) (h : s.scopes.WellFormed) :
    Gives (fun r => s.scopes.GrownTo r.session.scopes)
      (loadFile tree search depth s place requester).result := by
  induction depth generalizing s place requester with
  | zero =>
    intro r hr
    cases hr
  | succ depth ih =>
    have hload : GrowsScopes fun s place line => loadFile tree search depth s place (some line) :=
      fun s place line => ih s place (some line)
    obtain ⟨hgrown, hstart⟩ := start_inFile h place
    rw [loadFile]
    refine Report.gives_of_bind fun text => Report.gives_of_bind fun _ => ?_
    refine Report.gives_bind (loadLines_within hload hstart 1 _) fun r hr => ?_
    refine Report.gives_bind (finish_steady _) fun l hsteady => .pure ?_
    rw [hsteady.calm.scopes_eq]
    exact hgrown.trans hr.grown

/-- The start of the source file in a new run. -/
def atSource (isa : Isa) (options : Options) (place : Place) : Except Error Loading := do
  let s ← Session.start isa options
  let r ← s.placeBlocks isa.blocks
  return start r.1 place

theorem atSource_eq_ok {isa : Isa} {options : Options} {place : Place}
    (h : atSource isa options place = .ok l) :
    ∃ s : Session, s.StartsPlain ∧ l = start s place := by
  obtain ⟨s, hstart, h⟩ := bind_eq_ok.mp h
  obtain ⟨r, hblocks, h⟩ := bind_eq_ok.mp h
  exact ⟨r.1, Session.startsPlain_placeBlocks
    (Session.startsPlain_start s hstart) isa.blocks r hblocks, (pure_eq_ok.mp h).symm⟩

/-- The states of the loader in a run: at the start of the source file, after a line, and at the
start of a file that a line asks for. -/
inductive Arises (tree : FileTree) (isa : Isa) (options : Options) : Loading → Prop
  | source {l : Loading} {place : Place} (h : atSource isa options place = .ok l) :
      Arises tree isa options l
  | line {l : Loading} {r : Loading × List Item} {search : List Place} {depth number : Nat}
      {src : List Char} (h : Arises tree isa options l)
      (hline : (l.loadLine tree search
        (fun s place line => loadFile tree search depth s place (some line))
        number src).result = .ok r) :
      Arises tree isa options r.1
  | included {l : Loading} {w : Request} {search : List Place} {number : Nat} {src : List Char}
      (h : Arises tree isa options l) (hasks : l.Asks tree search number src w) :
      Arises tree isa options (start w.session w.place)

theorem Arises.loadLines {isa : Isa} {options : Options} (h : Arises tree isa options l)
    (search : List Place) (depth number : Nat) (lines : List (List Char)) :
    Gives (fun r => Arises tree isa options r.1) (l.loadLines tree search
      (fun s place line =>
        loadFile tree search depth s place (some line)) number lines).result := by
  induction lines generalizing l number with
  | nil => exact .pure h
  | cons src rest ih =>
    exact Report.gives_bind (fun _ hr => .line h hr) fun r hr =>
      Report.gives_bind (ih hr (number + 1)) fun _ hr' => .pure hr'

/-- The state after the first lines of a source file that includes no others. -/
def afterLines (isa : Isa) (options : Options) (place : Place) (lines : List (List Char)) :
    Except Error Loading := do
  let l ← atSource isa options place
  let tree : FileTree := { files := [], directories := [] }
  let r ← (l.loadLines tree [] (fun s place line =>
      loadFile tree [] 0 s place (some line)) 1 lines).result
  return r.1

/-- This state, by a view of it that can be computed. -/
theorem exists_arises {isa : Isa} {options : Options} (place : Place)
    (lines : List (List Char)) {α : Type} {view : Loading → α} {a : α}
    (h : (afterLines isa options place lines).map view = .ok a) :
    ∃ l, Arises { files := [], directories := [] } isa options l ∧ view l = a := by
  obtain ⟨l', hl', hview⟩ := map_eq_ok.mp h
  obtain ⟨l, hl, hlines⟩ := bind_eq_ok.mp hl'
  obtain ⟨r, hr, hsame⟩ := bind_eq_ok.mp hlines
  cases pure_eq_ok.mp hsame
  exact ⟨r.1, Arises.loadLines (.source hl) [] 0 1 lines r hr, hview⟩

/-- **In every state of a run the current scope is inside the scope of the file.** -/
theorem Arises.inFile {isa : Isa} {options : Options} (h : Arises tree isa options l) :
    l.InFile := by
  induction h with
  | source h =>
    obtain ⟨s, hplain, rfl⟩ := atSource_eq_ok h
    exact (start_inFile hplain.isPlain.wellFormed _).2
  | @line l r search depth number src _ hline ih =>
    have hload : GrowsScopes fun s place line => loadFile tree search depth s place (some line) :=
      fun s place line => loadFile_grows tree search depth s place (some line)
    exact (loadLine_within hload ih number src r hline).inFile
  | @included l w search number src _ hasks ih =>
    obtain ⟨name, l', -, hwarn, -, -, hsession, -⟩ := hasks
    have hwithin := ih.within_of_calm (warnMuted_steady hwarn).calm
    rw [hsession]
    exact (start_inFile hwithin.inFile.wellFormed w.place).2

/-- A named scope never takes local labels, in any state of a run. -/
theorem Arises.ready {isa : Isa} {options : Options} (h : Arises tree isa options l) : l.Ready := by
  induction h with
  | source h =>
    obtain ⟨s, hplain, rfl⟩ := atSource_eq_ok h
    refine (start_ready ?_ ?_).1
    · rw [hplain.named_eq]
      exact List.forall_mem_nil _
    · rw [hplain.files_eq]
      rfl
  | @line l r search depth number src _ hline ih =>
    have hload : LoadsFiles fun s place line => loadFile tree search depth s place (some line) :=
      fun s place line => loadFile_loads depth s place (some line)
    exact (loadLine_steps hload ih number src r hline).ready ih
  | @included l w search number src _ hasks ih =>
    have hnew := hasks.is_new
    obtain ⟨name, l', -, hwarn, -, -, hsession, -⟩ := hasks
    refine (start_ready ?_ hnew).1
    rw [hsession]
    exact (warnMuted_steady hwarn).calm.noLocals ih.noLocals

end Loading

end Retarget
