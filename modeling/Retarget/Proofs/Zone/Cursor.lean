import Retarget.Proofs.Result
import Retarget.Zone.Basic

/-!
# Cursors of zones

A cursor moves within its zone, up to right behind it, and nothing else of a zone ever changes.

* `Zone.CursorInside`: where the cursor of a zone may stand;
* `ZoneMap.SameRanges`: the same zones, whatever their cursors are;
* `ZoneMap.SameRanges.of_moveTo`, `ZoneMap.AllInside.moveTo`: what moving a cursor keeps.
-/

namespace Retarget

namespace Zone

/-- The cursor is in the zone, or right behind it if the zone is full. -/
def CursorInside (z : Zone) : Prop := z.first ≤ z.cursor ∧ z.cursor ≤ z.last + 1

instance (z : Zone) : Decidable z.CursorInside := inferInstanceAs (Decidable (_ ∧ _))

/-- The zone with its cursor at the start, which is all of it that never changes. -/
def rewind (z : Zone) : Zone := { z with cursor := z.first }

theorem moveTo_eq_ok {z z' : Zone} {address : Int} :
    z.moveTo address = .ok z' ↔
      z.first ≤ address ∧ address ≤ z.last + 1 ∧ z' = { z with cursor := address } := by
  unfold moveTo
  by_cases hbelow : address < z.first
  · rw [if_pos hbelow]
    exact iff_of_false (by simp) fun h => by omega
  · rw [if_neg hbelow]
    by_cases hbeyond : z.last + 1 < address
    · rw [if_pos hbeyond]
      exact iff_of_false (by simp) fun h => by omega
    · rw [if_neg hbeyond, Except.ok.injEq, eq_comm]
      exact ⟨fun h => ⟨by omega, by omega, h⟩, fun h => h.2.2⟩

end Zone

namespace ZoneMap

variable {m m' m'' : ZoneMap} {id : ZoneId} {address : Int}

theorem toList_set (m : ZoneMap) (id : ZoneId) (z : Zone) :
    (m.set id z).toList = m.toList.set id z := by
  cases id <;> rfl

theorem get_mem_toList (m : ZoneMap) (id : ZoneId) : m.get id ∈ m.toList := by
  rw [get, List.getD_eq_getElem?_getD]
  cases h : m.toList[id]? with
  | none => exact List.mem_cons_self
  | some z => exact List.mem_of_getElem? h

theorem moveTo_eq_ok :
    m.moveTo id address = .ok m' ↔ (m.get id).first ≤ address ∧ address ≤ (m.get id).last + 1 ∧
      m' = m.set id { m.get id with cursor := address } := by
  constructor
  · intro h
    obtain ⟨z, hz, h⟩ := bind_eq_ok.mp h
    obtain ⟨hfirst, hlast, rfl⟩ := Zone.moveTo_eq_ok.mp hz
    exact ⟨hfirst, hlast, (pure_eq_ok.mp h).symm⟩
  · rintro ⟨hfirst, hlast, rfl⟩
    exact bind_eq_ok.mpr ⟨_, Zone.moveTo_eq_ok.mpr ⟨hfirst, hlast, rfl⟩, rfl⟩

/-! ## Ranges -/

/-- The same zones up to their cursors. -/
def SameRanges (m m' : ZoneMap) : Prop := m'.toList.map Zone.rewind = m.toList.map Zone.rewind

namespace SameRanges

theorem refl (m : ZoneMap) : m.SameRanges m := rfl

theorem trans (h : m.SameRanges m') (h' : m'.SameRanges m'') : m.SameRanges m'' := Eq.trans h' h

theorem rewind_get (h : m.SameRanges m') (id : ZoneId) :
    (m'.get id).rewind = (m.get id).rewind := by
  have hget (m : ZoneMap) : (m.get id).rewind =
      (m.toList.map Zone.rewind).getD id m.global.rewind := by
    rw [get, List.getD_eq_getElem?_getD, List.getD_eq_getElem?_getD, List.getElem?_map,
      Option.getD_map]
  have hglobal : m'.global.rewind = m.global.rewind := (List.cons.inj h).1
  rw [hget, hget, hglobal, h]

theorem contains_eq (h : m.SameRanges m') (id : ZoneId) (a : Int) :
    (m'.get id).contains a = (m.get id).contains a := by
  have hranges := h.rewind_get id
  simp only [Zone.rewind, Zone.mk.injEq] at hranges
  rw [Zone.contains, Zone.contains, hranges.2.2.1, hranges.2.2.2.1]

/-- Moving a cursor keeps all ranges. -/
theorem of_moveTo (h : m.moveTo id address = .ok m') : m.SameRanges m' := by
  obtain ⟨-, -, rfl⟩ := moveTo_eq_ok.mp h
  rw [SameRanges, toList_set, List.map_set]
  by_cases hid : id < (m.toList.map Zone.rewind).length
  · have hself : Zone.rewind { m.get id with cursor := address } =
      (m.toList.map Zone.rewind)[id] := by
      rw [List.length_map] at hid
      rw [List.getElem_map, get, List.getD_eq_getElem?_getD, List.getElem?_eq_getElem hid]
      rfl
    rw [hself, List.set_getElem_self]
  · exact List.set_eq_of_length_le (Nat.le_of_not_lt hid)

end SameRanges

/-! ## Cursors -/

/-- All cursors are where they may stand. -/
def AllInside (m : ZoneMap) : Prop := ∀ z ∈ m.toList, z.CursorInside

theorem AllInside.moveTo (hm : m.AllInside) (h : m.moveTo id address = .ok m') : m'.AllInside := by
  obtain ⟨hfirst, hlast, rfl⟩ := moveTo_eq_ok.mp h
  intro z hz
  rw [toList_set] at hz
  rcases List.mem_or_eq_of_mem_set hz with hz | rfl
  · exact hm z hz
  · exact ⟨hfirst, hlast⟩

end ZoneMap

end Retarget
