import Retarget.Proofs.Assembly.Target
import Retarget.Proofs.Scope.Local
import Retarget.Proofs.Statement.LocalBlocks
import Retarget.Proofs.Statement.Reader

/-!
# Scopes of loaded items

While files are loaded, the scope of a file follows its blocks of local labels, and constants are
bound. What is known of the items so far is kept by every line, whatever it includes.

* `Session.Grows`: the scopes that items open and the constants that they bind;
* `Loading.Segment`: the items of some lines of a file, and of what these include;
* `Loading.track_segment`: what a statement does;
* `Session.Loads`, `Loading.loadFile_loads`: the items of a whole file, with all that it includes.
-/

namespace Retarget

/-- The item gives a value to a local constant. -/
def Item.GivesConstant (i : Item) (id : ScopeId) (name : LocalName) (v : Int) : Prop :=
  i.scope = id ∧ i.statement = .constant name v

/-! ## Sessions -/

namespace Session

/-- What items do to the scopes of a session when they are loaded: each label that is not local
opens a block of its own, and local constants are bound. -/
structure Grows (s s' : Session) (items : List Item) : Prop where
  noLocals : s'.named.NoLocals
  files_le : s.files.length ≤ s'.files.length
  scopes : s.scopes.Extends s'.scopes
  opened : ∀ i ∈ items, i.statement.opensBlock = true →
    s.scopes.scopes.length ≤ i.scope ∧ s'.scopes.tierOf i.scope = .block
  distinct : items.Pairwise fun i j =>
    i.statement.opensBlock = true → j.statement.opensBlock = true → i.scope ≠ j.scope
  adds : ScopeTree.Adds Item.GivesConstant s.scopes s'.scopes items

/-- The files that are new have scopes, and these follow the blocks of their items. -/
def Tracks (s s' : Session) (items : List Item) : Prop :=
  ∀ n, s.files.length ≤ n → n < s'.files.length →
    ∃ fileScope, s'.scopes.tierOf fileScope = .file ∧ Tracked n fileScope fileScope items

/-- Loading a file with all that it includes. -/
structure Loads (s s' : Session) (items : List Item) : Prop where
  grows : s.Grows s' items
  tracks : s.Tracks s' items
  file : ∀ i ∈ items, ∃ n, s.files.length ≤ n ∧ n < s'.files.length ∧ i.line.file = some n

variable {s s' s'' : Session} {items more : List Item}

theorem Tracks.of_files_eq (h : s'.files = s.files) : s.Tracks s' items := by
  intro n hle hlt
  rw [h] at hlt
  exact absurd hlt (Nat.not_lt.mpr hle)

namespace Grows

/-- Statements that neither open a block nor bind a constant leave the scopes alone. -/
theorem quiet (hnoLocals : s'.named.NoLocals) (hfiles : s'.files = s.files)
    (hscopes : s'.scopes = s.scopes)
    (hitems : ∀ i ∈ items, i.statement.opensBlock = false ∧ ∀ name v,
      i.statement ≠ .constant name v) :
    s.Grows s' items where
  noLocals := hnoLocals
  files_le := by rw [hfiles]
  scopes := by rw [hscopes]; exact .refl _
  opened i hi hopens := by
    rw [(hitems i hi).1] at hopens
    cases hopens
  distinct := List.pairwise_of_forall_mem_list fun i hi _ _ hopens => by
    rw [(hitems i hi).1] at hopens
    cases hopens
  adds := .of_same (fun _ _ => by rw [hscopes]) fun i hi _ name v hgives =>
    (hitems i hi).2 name v hgives.2

theorem append (h : s.Grows s' items) (h' : s'.Grows s'' more) : s.Grows s'' (items ++ more) where
  noLocals := h'.noLocals
  files_le := Nat.le_trans h.files_le h'.files_le
  scopes := h.scopes.trans h'.scopes
  opened := by
    intro i hi hopens
    rcases List.mem_append.mp hi with hi | hi
    · obtain ⟨hle, htier⟩ := h.opened i hi hopens
      exact ⟨hle, h'.scopes.keeps htier Tier.noConfusion⟩
    · obtain ⟨hle, htier⟩ := h'.opened i hi hopens
      exact ⟨Nat.le_trans h.scopes.length_le hle, htier⟩
  distinct := by
    refine List.pairwise_append.mpr ⟨h.distinct, h'.distinct, fun i hi j hj hiopens hjopens => ?_⟩
    -- The scope of the first one was there before the second one opened its own.
    have hlt : i.scope < s'.scopes.scopes.length :=
      ScopeTree.lt_of_tierOf_ne (by rw [(h.opened i hi hiopens).2]; exact Tier.noConfusion)
    exact Nat.ne_of_lt (Nat.lt_of_lt_of_le hlt (h'.opened j hj hjopens).1)
  adds := h.adds.append h'.adds

end Grows

end Session

/-! ## Files that are being loaded -/

namespace Loading

variable {l l' l'' : Loading} {tree : FileTree} {search : List Place} {load : Include}
  {line : SourceLine} {items more : List Item} {i : Item}

/-- What holds of every file that is being loaded. -/
structure Ready (l : Loading) : Prop where
  file_lt : l.file < l.session.files.length
  noLocals : l.session.named.NoLocals

/-- What some lines of a file do: the scope of the file follows the blocks of its items, and so do
the scopes of the files that are included. -/
structure Segment (l l' : Loading) (items : List Item) : Prop where
  grows : l.session.Grows l'.session items
  file_eq : l'.file = l.file
  fileScope_eq : l'.fileScope = l.fileScope
  tracked : Tracked l.file l.fileScope l.position.scope items
  scope_eq : l'.position.scope = scopeAtEnd l.file l.fileScope l.position.scope items
  tracks : l.session.Tracks l'.session items
  file : ∀ i ∈ items, ∃ n, i.line.file = some n ∧
    (n = l.file ∨ l.session.files.length ≤ n ∧ n < l'.session.files.length)

namespace Segment

theorem ready (h : l.Segment l' items) (hl : l.Ready) : l'.Ready where
  file_lt := by
    rw [h.file_eq]
    exact Nat.lt_of_lt_of_le hl.file_lt h.grows.files_le
  noLocals := h.grows.noLocals

theorem append (hl : l.Ready) (h : l.Segment l' items) (h' : l'.Segment l'' more) :
    l.Segment l'' (items ++ more) where
  grows := h.grows.append h'.grows
  file_eq := h'.file_eq.trans h.file_eq
  fileScope_eq := h'.fileScope_eq.trans h.fileScope_eq
  tracked := by
    have hmore := h'.tracked
    rw [h.file_eq, h.fileScope_eq, h.scope_eq] at hmore
    exact tracked_append.mpr ⟨h.tracked, hmore⟩
  scope_eq := by
    rw [h'.scope_eq, h.file_eq, h.fileScope_eq, h.scope_eq, scopeAtEnd_append]
  tracks := by
    intro n hle hlt
    have hown := hl.file_lt
    have hgrown := h.grows.files_le
    by_cases hn : n < l'.session.files.length
    · obtain ⟨fileScope, htier, htracked⟩ := h.tracks n hle hn
      have hother : ∀ i ∈ more, i.line.file ≠ some n := by
        intro i hi heq
        obtain ⟨n', hfile, hn'⟩ := h'.file i hi
        cases hfile.symm.trans heq
        rw [h.file_eq] at hn'
        omega
      exact ⟨fileScope, h'.grows.scopes.keeps htier Tier.noConfusion,
        tracked_append.mpr ⟨htracked, (tracked_of_other hother _ _).1⟩⟩
    · obtain ⟨fileScope, htier, htracked⟩ := h'.tracks n (Nat.not_lt.mp hn) hlt
      have hother : ∀ i ∈ items, i.line.file ≠ some n := by
        intro i hi heq
        obtain ⟨n', hfile, hn'⟩ := h.file i hi
        cases hfile.symm.trans heq
        omega
      obtain ⟨hitems, hend⟩ := tracked_of_other hother fileScope fileScope
      exact ⟨fileScope, htier, tracked_append.mpr ⟨hitems, by rwa [hend]⟩⟩
  file := by
    have hgrown := h.grows.files_le
    have hgrown' := h'.grows.files_le
    intro i hi
    rcases List.mem_append.mp hi with hi | hi
    · obtain ⟨n, hfile, hn⟩ := h.file i hi
      exact ⟨n, hfile, by omega⟩
    · obtain ⟨n, hfile, hn⟩ := h'.file i hi
      rw [h.file_eq] at hn
      exact ⟨n, hfile, by omega⟩

/-- One item of the file. -/
theorem single (hgrows : l.session.Grows l'.session [i])
    (hfiles : l'.session.files = l.session.files) (hfile_eq : l'.file = l.file)
    (hfileScope : l'.fileScope = l.fileScope) (hfile : i.line.file = some l.file)
    (hscope : i.scope = l'.position.scope)
    (hafter : l'.position.scope = i.scopeAfter l.file l.fileScope l.position.scope) :
    l.Segment l' [i] where
  grows := hgrows
  file_eq := hfile_eq
  fileScope_eq := hfileScope
  tracked := ⟨fun _ => hscope.trans hafter, trivial⟩
  scope_eq := hafter
  tracks := .of_files_eq hfiles
  file := by
    intro j hj
    cases List.mem_singleton.mp hj
    exact ⟨l.file, hfile, .inl rfl⟩

end Segment

/-! ## Steps that leave the scopes alone -/

theorem Calm.segment (h : l.Calm l') (hl : l.Ready) : l.Segment l' [] where
  grows := .quiet (h.noLocals hl.noLocals) h.files_eq h.scopes_eq (by simp)
  file_eq := h.file_eq
  fileScope_eq := h.fileScope_eq
  tracked := trivial
  scope_eq := h.scope_eq
  tracks := .of_files_eq h.files_eq
  file := by simp

/-! ## Statements -/

/-- A label that is not local opens a block. -/
theorem segment_of_openBlock (hl : l.Ready) (hfile : i.line.file = some l.file) {name : String}
    (hstatement : i.statement = .label name) (hname : Tier.ofLabel name ≠ .block) :
    let (scopes, scope) := l.session.scopes.openBlock l.fileScope name
    l.Segment { l with session := { l.session with scopes }, position := { l.position with scope } }
      [{ i with scope }] := by
  have hopens : i.statement.opensBlock = true := by
    simpa [hstatement, Statement.opensBlock] using hname
  refine .single ⟨hl.noLocals, Nat.le_refl _, .append _ _, ?_, List.pairwise_singleton _ _,
    .of_same (ScopeTree.lookup_append _ rfl) ?_⟩ rfl rfl rfl hfile rfl ?_
  · intro j hj _
    cases List.mem_singleton.mp hj
    exact ⟨Nat.le_refl _, ScopeTree.tierOf_of_getElem? List.getElem?_concat_length⟩
  · simp [Item.GivesConstant, hstatement]
  · rw [Item.scopeAfter, if_pos hfile, if_pos hopens]

/-- A constant is bound. -/
theorem segment_of_constant (hl : l.Ready) (hfile : i.line.file = some l.file)
    {name : String} {v : Int} (hstatement : i.statement = .constant name v) {session : Session}
    (hbind : l.session.bindLabel l.position.scope l.position.active name v i.line = .ok session) :
    l.Segment { l with session } [{ i with scope := l.position.scope }] := by
  have hgives (id : ScopeId) (n : LocalName) (w : Int) :
      Item.GivesConstant { i with scope := l.position.scope } id n w ↔
        l.position.scope = id ∧ name = n.val ∧ v = w := by
    simp [Item.GivesConstant, hstatement]
  obtain ⟨hnoLocals, hextends, hadds⟩ := Session.adds_of_bindLabel hl.noLocals hbind hgives
  have hfiles : session.files = l.session.files := by
    rcases Session.bindLabel_eq_ok hbind with ⟨named, -, rfl⟩ | ⟨scopes, -, -, rfl⟩
    · rfl
    · rfl
  refine .single ⟨hnoLocals, by rw [hfiles], hextends, ?_, List.pairwise_singleton _ _, hadds⟩
    hfiles rfl rfl hfile rfl ?_
  · simp [hstatement, Statement.opensBlock]
  · simp [Item.scopeAfter, hstatement, Statement.opensBlock, Statement.leavesBlock]

/-- An origin and the choice of a zone lead out of the block. -/
theorem segment_of_enterZone (hl : l.Ready) (hcalm : l.Calm l') (hfile : i.line.file = some l.file)
    (hopens : i.statement.opensBlock = false) (hleaves : i.statement.leavesBlock = true)
    (zone : ZoneId) : l.Segment (l'.enterZone zone) [{ i with zone, scope := l'.fileScope }] := by
  have hconstant (name : String) (v : Int) : i.statement ≠ .constant name v := by
    intro heq
    rw [heq] at hleaves
    cases hleaves
  refine .single (.quiet (hcalm.noLocals hl.noLocals) hcalm.files_eq hcalm.scopes_eq ?_)
    hcalm.files_eq hcalm.file_eq hcalm.fileScope_eq hfile rfl ?_
  · exact List.forall_mem_singleton.mpr ⟨hopens, hconstant⟩
  · simp [Item.scopeAfter, hfile, hopens, hleaves, enterZone, hcalm.fileScope_eq]

/-- Any other statement stands in the scope of the file. -/
theorem segment_of_inside (hl : l.Ready) (hfile : i.line.file = some l.file)
    (hends : i.statement.endsBlock = false) (hconstant : ∀ name v, i.statement ≠ .constant name v) :
    l.Segment l [{ i with scope := l.position.scope }] := by
  obtain ⟨hopens, hleaves⟩ := Bool.or_eq_false_iff.mp hends
  refine .single (.quiet hl.noLocals rfl rfl (List.forall_mem_singleton.mpr ⟨hopens, hconstant⟩))
    rfl rfl rfl hfile rfl ?_
  simp [Item.scopeAfter, hopens, hleaves]

/-- What a statement does to the scopes, and that it counts as before. -/
theorem track_segment (hl : l.Ready) (hfile : i.line.file = some l.file) :
    Gives (fun r => l.Segment r.1 [r.2] ∧ r.2.compilable = i.compilable) (l.track i).result := by
  unfold track
  split
  · rename_i name hstatement
    split
    · rename_i hname
      refine .pure ⟨segment_of_inside hl hfile ?_ (by simp [hstatement]), rfl⟩
      simp [hstatement, Statement.endsBlock, Statement.opensBlock, Statement.leavesBlock, hname]
    · exact .pure ⟨segment_of_openBlock hl hfile hstatement ‹_›, rfl⟩
  · rename_i address name hstatement
    exact Report.gives_of_bind fun zone => .pure
      ⟨segment_of_enterZone hl (.refl l) hfile (by rw [hstatement]; rfl)
        (by rw [hstatement]; rfl) zone, rfl⟩
  · rename_i address hstatement
    exact Report.gives_bind absoluteOrigin_steady fun l' hsteady => .pure
      ⟨segment_of_enterZone hl hsteady.calm hfile (by rw [hstatement]; rfl)
        (by rw [hstatement]; rfl) _, rfl⟩
  · rename_i name hstatement
    exact Report.gives_of_bind fun zone => .pure
      ⟨segment_of_enterZone hl (.refl l) hfile (by rw [hstatement]; rfl)
        (by rw [hstatement]; rfl) zone, rfl⟩
  · rename_i name v hstatement
    intro r hr
    obtain ⟨session, hbind, hr⟩ := Report.result_bind_eq_ok.mp hr
    cases hr
    exact ⟨segment_of_constant hl hfile hstatement (Error.liftAt_eq_ok.mp hbind), rfl⟩
  · rename_i hlabel horg horg' hzone hconstant
    refine .pure ⟨segment_of_inside hl hfile ?_ hconstant, rfl⟩
    cases hstatement : i.statement with
    | label name => exact absurd hstatement (hlabel name)
    | org address zone =>
      cases zone with
      | none => exact absurd hstatement (horg' address)
      | some name => exact absurd hstatement (horg address name)
    | setZone name => exact absurd hstatement (hzone name)
    | plain | constant | instruction | data | fill | fillUntil | align => rfl

theorem trackAll_segment (hl : l.Ready) (items : List Item)
    (hitems : ∀ i ∈ items, i.line.file = some l.file ∧ i.compilable = true) :
    Gives (fun r => l.Segment r.1 r.2 ∧ ∀ i ∈ r.2,
      i.compilable = true) (l.trackAll items).result := by
  induction items generalizing l with
  | nil => exact .pure ⟨(Calm.refl l).segment hl, by simp⟩
  | cons i rest ih =>
    rw [List.forall_mem_cons] at hitems
    obtain ⟨⟨hfile, hcompilable⟩, hrest⟩ := hitems
    refine Report.gives_bind (track_segment hl hfile) ?_
    rintro ⟨l', i'⟩ ⟨hsegment, hsame⟩
    rw [← hsegment.file_eq] at hrest
    refine Report.gives_bind (ih (hsegment.ready hl) hrest) ?_
    rintro ⟨l'', rest'⟩ ⟨hmore, hcount⟩
    refine .pure ⟨hsegment.append hl hmore, ?_⟩
    rw [List.forall_mem_cons]
    exact ⟨hsame.trans hcompilable, hcount⟩

/-! ## Directives -/

/-- What a line does, where only items that count matter. -/
def Steps (l : Loading) (r : Loading × List Item) : Prop :=
  l.Segment r.1 (r.2.filter Item.compilable)

theorem Calm.steps (h : l.Calm l') (hl : l.Ready) : l.Steps (l', []) := h.segment hl

/-- Loading another file keeps track of its items. -/
def LoadsFiles (load : Include) : Prop :=
  ∀ s place line, s.named.NoLocals → s.files.find? place.render = none →
    Gives (fun r => s.Loads r.session (r.items.filter Item.compilable)) (load s place line).result

/-- The items of an included file are of other files. -/
theorem segment_of_loads (hl : l.Ready) {s : Session} (h : l.session.Loads s items)
    (created : NameSet) : l.Segment { l with session := s, created } items := by
  have hother : ∀ i ∈ items, i.line.file ≠ some l.file := by
    intro i hi heq
    obtain ⟨n, hle, -, hfile⟩ := h.file i hi
    cases hfile.symm.trans heq
    exact absurd hl.file_lt (Nat.not_lt.mpr hle)
  obtain ⟨htracked, hend⟩ := tracked_of_other hother l.fileScope l.position.scope
  refine ⟨h.grows, rfl, rfl, htracked, hend.symm, h.tracks, fun i hi => ?_⟩
  obtain ⟨n, hle, hlt, hfile⟩ := h.file i hi
  exact ⟨n, hfile, .inr ⟨hle, hlt⟩⟩

theorem process_steps (hload : LoadsFiles load) (hl : l.Ready) (d : Directive) :
    Gives l.Steps (l.process tree search load line d).result := by
  intro r hr
  rcases process_eq_ok hr with ⟨name, -, hinclude⟩ | ⟨c, conditions, -, -, rfl⟩ | ⟨hsteady, hnil⟩
  · obtain ⟨l', place, loaded, hwarn, -, hnew, hloaded, rfl⟩ := includeFile_eq_ok hinclude
    have hcalm := (warnMuted_steady hwarn).calm
    have hsegment := hcalm.segment hl
    have hl' := hsegment.ready hl
    rw [← hcalm.files_eq] at hnew
    exact hsegment.append hl (segment_of_loads hl' (hload _ _ _ hl'.noLocals hnew loaded hloaded) _)
  · exact Calm.steps ⟨rfl, rfl, id, rfl, rfl, rfl⟩ hl
  · obtain ⟨l', items⟩ := r
    cases hnil
    exact hsteady.calm.steps hl

/-! ## Lines and files -/

/-- The item of a directive does not count. -/
theorem Steps.concat_inert {r : Loading × List Item} (h : l.Steps r) (text comment : String)
    (muted : Bool) : l.Steps (r.1, r.2 ++ [r.1.inertItem line text comment muted]) := by
  rw [Steps, List.filter_append, List.filter_singleton]
  simpa [inertItem, Steps] using h

theorem loadLine_steps (hload : LoadsFiles load) (hl : l.Ready) (number : Nat) (src : List Char) :
    Gives l.Steps (l.loadLine tree search load number src).result := by
  intro r hr
  rcases loadLine_eq_ok hr with ⟨d, l', items, -, hprocess, rfl⟩ | ⟨text, comment, muted, rfl⟩ |
    ⟨items, hitems, htrack⟩
  · exact (process_steps hload hl d _ hprocess).concat_inert _ _ _
  · exact ((Calm.refl l).steps hl).concat_inert _ _ _
  · have hcalm : l.Calm l.atStatement := ⟨rfl, rfl, id, rfl, rfl, rfl⟩
    have hsegment := hcalm.segment hl
    have htracked := trackAll_segment (hsegment.ready hl) items fun i hi => by
      obtain ⟨hline, hcompilable⟩ := Reader.item_of_readLine _ src items hitems i hi
      exact ⟨by rw [hline]; rfl, hcompilable⟩
    obtain ⟨hmore, hcount⟩ := htracked r htrack
    rw [Steps, List.filter_eq_self.mpr hcount]
    exact hsegment.append hl hmore

theorem loadLines_steps (hload : LoadsFiles load) (hl : l.Ready) (number : Nat)
    (lines : List (List Char)) :
    Gives l.Steps (l.loadLines tree search load number lines).result := by
  induction lines generalizing l number with
  | nil => exact .pure ((Calm.refl l).steps hl)
  | cons src rest ih =>
    refine Report.gives_bind (loadLine_steps hload hl number src) fun r hr => ?_
    refine Report.gives_bind (ih (hr.ready hl) (number + 1)) fun r' hr' => .pure ?_
    rw [Steps, List.filter_append]
    exact hr.append hl hr'

/-- A file begins with a number and a scope of its own. -/
theorem start_ready {s : Session} {place : Place} (hs : s.named.NoLocals)
    (hnew : s.files.find? place.render = none) :
    (start s place).Ready ∧ s.Grows (start s place).session [] ∧
      (start s place).file = s.files.length ∧
      (start s place).session.files.length = s.files.length + 1 ∧
      (start s place).session.scopes.tierOf (start s place).fileScope = .file ∧
      (start s place).position.scope = (start s place).fileScope := by
  have hadd : s.files.add place.render = (s.files ++ [place.render], s.files.length) := by
    rw [FileTable.add, hnew]
  have hfiles : (start s place).session.files = s.files ++ [place.render] := by rw [start, hadd]
  have hfile : (start s place).file = s.files.length := by rw [start, hadd]
  have hlength : (start s place).session.files.length = s.files.length + 1 := by
    rw [hfiles, List.length_append, List.length_singleton]
  refine ⟨⟨by omega, hs⟩, ⟨hs, by omega, .append _ _, by simp, .nil, ?_⟩, hfile, hlength, ?_, rfl⟩
  · exact .of_same (ScopeTree.lookup_append _ rfl) (by simp)
  · exact ScopeTree.tierOf_of_getElem? List.getElem?_concat_length

/-- The items of a file from its beginning on. -/
theorem loads_of_segment {s : Session} {place : Place} (hs : s.named.NoLocals)
    (hnew : s.files.find? place.render = none) (h : (start s place).Segment l items) :
    s.Loads l.session items := by
  obtain ⟨-, hgrows, hfile, hlength, htier, hscope⟩ := start_ready hs hnew
  have hle := h.grows.files_le
  refine ⟨hgrows.append h.grows, fun n hn hlt => ?_, fun i hi => ?_⟩
  · by_cases hown : n = s.files.length
    · have htracked := h.tracked
      rw [hfile, hscope, ← hown] at htracked
      exact ⟨_, h.grows.scopes.keeps htier Tier.noConfusion, htracked⟩
    · exact h.tracks n (by omega) hlt
  · obtain ⟨n, hi, hn⟩ := h.file i hi
    exact ⟨n, by omega, by omega, hi⟩

/-- **The items of a file and of all that it includes.** The induction is on how deep files may
include each other. -/
theorem loadFile_loads (depth : Nat) (s : Session) (place : Place) (requester : Option SourceLine)
    (hs : s.named.NoLocals) (hnew : s.files.find? place.render = none) :
    Gives (fun r => s.Loads r.session (r.items.filter Item.compilable))
      (loadFile tree search depth s place requester).result := by
  induction depth generalizing s place requester with
  | zero =>
    intro r hr
    cases hr
  | succ depth ih =>
    have hload : LoadsFiles fun s place line => loadFile tree search depth s place (some line) :=
      fun s place line => ih s place (some line)
    have hready := (start_ready hs hnew).1
    rw [loadFile]
    refine Report.gives_of_bind fun text => Report.gives_of_bind fun _ => ?_
    refine Report.gives_bind (loadLines_steps hload hready 1 _) fun r hr => ?_
    refine Report.gives_bind (finish_steady _) fun l hsteady => .pure (loads_of_segment hs hnew ?_)
    have hsegment := hr.append hready (hsteady.calm.segment (hr.ready hready))
    rwa [List.append_nil] at hsegment

end Loading

end Retarget
