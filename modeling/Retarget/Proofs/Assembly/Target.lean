import Retarget.Assembly.Program
import Retarget.Proofs.Assembly.Lines
import Retarget.Proofs.Assembly.Placing

/-!
# The target of a session

A run is for one instruction set: whatever the lines of a program do to the session, its instruction
set stays the one that the run began with.

* `Loading.SameIsa`: steps of a file that is being loaded;
* `Loading.loadLines_sameIsa`, `Loading.loadFile_sameIsa`: its lines, and the whole file with all
  that it includes;
* `Session.placeAll_sameIsa`: placing items;
* `Job.assemble_eq_ok`: the steps of a run.
-/

namespace Retarget

namespace Loading

variable {l : Loading} {tree : FileTree} {search : List Place} {load : Include} {line : SourceLine}

/-- The session is for the same instruction set. -/
def SameIsa (l l' : Loading) : Prop := l'.session.isa = l.session.isa

/-- Loading a file keeps the instruction set. -/
def KeepsIsa (load : Include) : Prop :=
  ∀ s place line, Gives (fun r => r.session.isa = s.isa) (load s place line).result

theorem loadLine_sameIsa (hload : KeepsIsa load) (number : Nat) (src : List Char) :
    Gives (fun r => l.SameIsa r.1) (l.loadLine tree search load number src).result := by
  intro r hr
  rcases loadLine_eq_ok hr with ⟨d, l', items, -, hprocess, rfl⟩ | ⟨text, comment, muted, rfl⟩ |
    ⟨items, -, htrack⟩
  · rcases process_eq_ok hprocess with ⟨name, -, hinclude⟩ | ⟨c, conditions, -, -, h⟩ | ⟨hsteady, -⟩
    · obtain ⟨l₁, place, loaded, hwarn, -, -, hloaded, h⟩ := includeFile_eq_ok hinclude
      cases h
      exact (hload _ _ _ loaded hloaded).trans (warnMuted_steady hwarn).keeps.isa_eq
    · cases h
      rfl
    · exact hsteady.keeps.isa_eq
  · rfl
  · exact (trackAll_keeps items r htrack).isa_eq

theorem loadLines_sameIsa (hload : KeepsIsa load) (number : Nat) (lines : List (List Char)) :
    Gives (fun r => l.SameIsa r.1) (l.loadLines tree search load number lines).result := by
  induction lines generalizing l number with
  | nil => exact .pure rfl
  | cons src rest ih =>
    exact Report.gives_bind (loadLine_sameIsa hload number src) fun _ h =>
      Report.gives_bind (ih (number + 1)) fun _ h' => .pure (h'.trans h)

/-- **A file is loaded for the instruction set of the session.** The induction is on how deep files
may include each other. -/
theorem loadFile_sameIsa (depth : Nat) (s : Session) (place : Place)
    (requester : Option SourceLine) :
    Gives (fun r => r.session.isa =
      s.isa) (loadFile tree search depth s place requester).result := by
  induction depth generalizing s place requester with
  | zero =>
    intro r hr
    cases hr
  | succ depth ih =>
    have hload : KeepsIsa fun s place line => loadFile tree search depth s place (some line) :=
      fun s place line => ih s place (some line)
    rw [loadFile]
    refine Report.gives_of_bind fun text => Report.gives_of_bind fun _ => ?_
    refine Report.gives_bind (loadLines_sameIsa hload 1 _) fun r hr => ?_
    exact Report.gives_bind (finish_steady _) fun l' hl' => .pure (hl'.keeps.isa_eq.trans hr)

end Loading

namespace Session

theorem placeItem_sameIsa (s : Session) (i : Item) :
    Gives (fun r => r.1.isa = s.isa) (s.placeItem i).result := by
  rintro ⟨s', p⟩ h
  obtain ⟨next, zones, warnings, -, -, -, hbind⟩ := placeItem_eq_ok h
  obtain ⟨scopes, named, rfl⟩ := bindAddress_eq_ok hbind
  rfl

/-- Items are placed for the instruction set of the session. -/
theorem placeAll_sameIsa (s : Session) (items : List Item) :
    Gives (fun r => r.1.isa = s.isa) (s.placeAll items).result := by
  induction items generalizing s with
  | nil => exact .pure rfl
  | cons i rest ih =>
    exact Report.gives_bind (s.placeItem_sameIsa i) fun r hr =>
      Report.gives_bind (ih r.1) fun _ h => .pure (h.trans hr)

end Session

/-- **The steps of a run.** The blocks of the instruction set are placed first; the session that
codes them, with the items of the source files, is still for the same instruction set. -/
theorem Job.assemble_eq_ok {j : Job} {isa : Isa} {p : Program}
    (h : (j.assemble isa).result = .ok p) :
    ∃ (s s' t t' : Session) (blocks placed : List PlacedItem) (words : List Word),
      Session.start isa j.options = .ok s ∧ s.placeBlocks isa.blocks = .ok (s', blocks) ∧
      t.isa = s'.isa ∧ (t.code (sortItems (placed ++ blocks))).result = .ok (t', p.items) ∧
      Image.words isa j.options p.items = .ok words ∧ p.image = wordsToBytes words true := by
  obtain ⟨place, -, h⟩ := Report.result_bind_eq_ok.mp h
  obtain ⟨s, hstart, h⟩ := Report.result_bind_eq_ok.mp h
  obtain ⟨⟨s', blocks⟩, hblocks, h⟩ := Report.result_bind_eq_ok.mp h
  obtain ⟨-, -, h⟩ := Report.result_bind_eq_ok.mp h
  obtain ⟨loaded, hloaded, h⟩ := Report.result_bind_eq_ok.mp h
  obtain ⟨-, -, h⟩ := Report.result_bind_eq_ok.mp h
  obtain ⟨-, -, h⟩ := Report.result_bind_eq_ok.mp h
  obtain ⟨⟨t, placed⟩, hplaced, h⟩ := Report.result_bind_eq_ok.mp h
  obtain ⟨-, -, h⟩ := Report.result_bind_eq_ok.mp h
  obtain ⟨⟨t', items⟩, hcode, h⟩ := Report.result_bind_eq_ok.mp h
  obtain ⟨words, hwords, h⟩ := Report.result_bind_eq_ok.mp h
  obtain ⟨-, -, h⟩ := Report.result_bind_eq_ok.mp h
  cases h
  have hisa := (Session.placeAll_sameIsa _ _ _ hplaced).trans
    (Loading.loadFile_sameIsa _ _ _ _ _ hloaded)
  exact ⟨s, s', t, t', blocks, placed, words, hstart, hblocks, hisa, hcode,
    Error.lift_eq_ok.mp hwords, rfl⟩

end Retarget
