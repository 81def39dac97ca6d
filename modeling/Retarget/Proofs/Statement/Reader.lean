import Retarget.Proofs.Result
import Retarget.Statement.Reader

/-!
# What reading a line gives

An instruction is encoded for the words of the instruction set that reads it (`Statement.MadeFor`),
and no other statement depends on them. `Reader.madeFor_readLine` says so for all items of a line.
-/

namespace Retarget

theorem Isa.wordSize_encodeAt (isa : Isa) (zones : ZoneMap) (depth : Nat) (line : SourceLine)
    (cs : List Char) :
    Gives (fun e => e.wordSize = isa.wordSize) (isa.encodeAt zones depth line cs) := by
  unfold encodeAt
  dsimp only
  split
  · exact .failAt
  · refine .bind fun found => ?_
    split
    · exact .pure rfl
    · exact .failAt
  · split
    · exact .failAt
    · refine .bind fun found => ?_
      split
      · exact .failAt
      · exact .bind fun steps => .pure rfl

namespace Reader

theorem ne_instruction_readOrigin (r : Reader) (args : List Char) :
    Gives (fun s => ∀ e, s ≠ .instruction e) (r.readOrigin args) := by
  unfold readOrigin
  dsimp only
  split
  · refine .bind fun _ => ?_
    split
    · exact .bind fun _ => .bind fun _ => .pure nofun
    · exact .bind fun _ => .pure nofun
  · split
    · exact .bind fun _ => .bind fun _ => .pure nofun
    · exact .bind fun _ => .pure nofun

theorem ne_instruction_readZone (r : Reader) (args : List Char) :
    Gives (fun s => ∀ e, s ≠ .instruction e) (r.readZone args) := by
  unfold readZone
  dsimp only
  split
  · exact .bind fun _ => .bind fun _ => .pure nofun
  · exact .bind fun _ => .pure nofun

/-- Directives are no instructions. -/
theorem ne_instruction_readDirective (r : Reader) (cs : List Char) :
    Gives (fun s => ∀ e, s ≠ .instruction e) (r.readDirective cs) := by
  unfold readDirective
  dsimp only
  split
  · exact .failAt
  · split
    · exact r.ne_instruction_readOrigin _
    · exact r.ne_instruction_readZone _
    · refine .bind fun found => ?_
      split
      · exact .bind fun _ => .bind fun _ => .pure nofun
      · exact .failAt
    · refine .bind fun found => ?_
      split
      · exact .bind fun _ => .pure nofun
      · exact .failAt
    · refine .bind fun found => ?_
      split
      · exact .bind fun _ => .pure nofun
      · exact .failAt
    · split
      · exact .pure nofun
      · exact .bind fun _ => .pure nofun
    · split
      · exact .bind fun _ => .pure nofun
      · exact .failAt

/-- All items of a line are on it, and count if the line does. -/
theorem item_of_readLine (r : Reader) (cs : List Char) :
    Gives (fun items => ∀ i ∈ items, i.line = r.line ∧ i.compilable = r.position.compilable)
      (r.readLine cs) := by
  refine .bind fun code => .bind fun statements => ?_
  split
  · refine .pure fun i hi => ?_
    cases List.mem_singleton.mp hi
    exact ⟨rfl, rfl⟩
  · refine .pure fun i hi => ?_
    obtain ⟨s, -, rfl⟩ := List.mem_map.mp hi
    exact ⟨rfl, rfl⟩

end Reader

end Retarget
