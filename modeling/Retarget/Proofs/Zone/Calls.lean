import Mathlib.Data.List.Nodup
import Retarget.Proofs.Zone.Cursor

/-!
# Histories of zones

Zones are made, `GLOBAL` gets another range and cursors are moved, in any order and number. A call
may fail, and then it changes nothing.

* `Zone.make_eq_ok`, `ZoneMap.create_eq_ok`, `ZoneMap.redefineGlobal_eq_ok`: when a call succeeds,
  and what it does then;
* `Zone.Fits`: a zone inside the address space, with its cursor inside or right behind it;
* `ZoneMap.Sound`: `GLOBAL` comes first, no name is there twice, and all zones fit;
* `ZoneMap.Sound.of_call`: what a call keeps;
* `ZoneMap.find?_of_names`: the number of a name depends on the names before it only.
-/

namespace Retarget

/-! ## One zone -/

namespace Zone

variable {z : Zone} {bits : Nat} {first last : Int} {name : String}

theorem make_eq_ok : make bits first last name = .ok z ↔
    0 ≤ first ∧ first ≤ last ∧ last ≤ maxAddress bits ∧
      z = { name, bits, first, last, cursor := first } := by
  unfold make
  by_cases hspace : first < 0 ∨ maxAddress bits < last
  · rw [if_pos hspace]
    exact iff_of_false (by simp) fun h => by omega
  · rw [if_neg hspace]
    by_cases horder : last < first
    · rw [if_pos horder]
      exact iff_of_false (by simp) fun h => by omega
    · rw [if_neg horder, Except.ok.injEq, eq_comm]
      exact ⟨fun h => ⟨by omega, by omega, by omega, h⟩, fun h => h.2.2.2⟩

/-- The zone is inside an address space, and its cursor is in the zone or right behind it. -/
structure Fits (z : Zone) (bits : Nat) : Prop where
  first_nonneg : 0 ≤ z.first
  first_le_last : z.first ≤ z.last
  last_le : z.last ≤ maxAddress bits
  cursorInside : z.CursorInside

/-- A cursor moves inside its zone. -/
theorem Fits.moveTo {z' : Zone} {address : Int} (h : z.Fits bits)
    (hmove : z.moveTo address = .ok z') : z'.Fits bits := by
  obtain ⟨hfirst, hlast, rfl⟩ := moveTo_eq_ok.mp hmove
  exact ⟨h.first_nonneg, h.first_le_last, h.last_le, hfirst, hlast⟩

theorem fits_of_make (h : make bits first last name = .ok z) : z.Fits bits ∧ z.name = name := by
  obtain ⟨hfirst, hle, hlast, rfl⟩ := make_eq_ok.mp h
  have hcursor : first ≤ last + 1 := by omega
  exact ⟨⟨hfirst, hle, hlast, Int.le_refl first, hcursor⟩, rfl⟩

end Zone

theorem maxAddress_eq {bits : Nat} (h : bits ≤ 126) : maxAddress bits = 2 ^ bits - 1 :=
  if_neg (by omega)

/-! ## Calls -/

namespace ZoneMap

variable {m m' start : ZoneMap} {bits : Nat} {first last origin : Int} {name : String} {id : ZoneId}

/-- The names of all zones, in the order of their numbers. -/
def names (m : ZoneMap) : List String := m.toList.map Zone.name

/-- The number of a name is its place among the names. -/
theorem find?_eq (m : ZoneMap) (name : String) : m.find? name = m.names.findIdx? (· == name) := by
  rw [find?, names, List.findIdx?_map]
  rfl

theorem isSome_find? : (m.find? name).isSome ↔ name ∈ m.names := by
  simp [find?_eq, List.findIdx?_isSome]

/-- Names that come later do not change the number of a name. -/
theorem find?_of_names (h : m.names <+: m'.names) (hid : m.find? name = some id) :
    m'.find? name = some id := by
  obtain ⟨more, hmore⟩ := h
  rw [find?_eq] at hid ⊢
  rw [← hmore, List.findIdx?_append, hid]
  rfl

theorem makeGlobal_eq_ok {z : Zone} : makeGlobal bits first last origin = .ok z ↔
    0 ≤ first ∧ first ≤ last ∧ last ≤ maxAddress bits ∧ first ≤ origin ∧ origin ≤ last + 1 ∧
      z = { name := globalName, bits, first, last, cursor := origin } := by
  constructor
  · intro h
    obtain ⟨z', hmake, hmove⟩ := bind_eq_ok.mp h
    obtain ⟨hfirst, hle, hlast, rfl⟩ := Zone.make_eq_ok.mp hmake
    obtain ⟨horigin, horigin', rfl⟩ := Zone.moveTo_eq_ok.mp hmove
    exact ⟨hfirst, hle, hlast, horigin, horigin', rfl⟩
  · rintro ⟨hfirst, hle, hlast, horigin, horigin', rfl⟩
    exact bind_eq_ok.mpr ⟨_, Zone.make_eq_ok.mpr ⟨hfirst, hle, hlast, rfl⟩,
      Zone.moveTo_eq_ok.mpr ⟨horigin, horigin', rfl⟩⟩

theorem fits_of_makeGlobal {z : Zone} (h : makeGlobal bits first last origin = .ok z) :
    z.Fits bits ∧ z.name = globalName := by
  obtain ⟨hfirst, hle, hlast, horigin, horigin', rfl⟩ := makeGlobal_eq_ok.mp h
  exact ⟨⟨hfirst, hle, hlast, horigin, horigin'⟩, rfl⟩

theorem create_eq_ok : m.create first last name = .ok m' ↔ name ∉ m.names ∧
    ∃ z, Zone.make m.bits first last name = .ok z ∧ m' = { m with others := m.others ++ [z] } := by
  unfold create
  by_cases htaken : (m.find? name).isSome
  · rw [if_pos htaken]
    exact iff_of_false (by simp) fun h => h.1 (isSome_find?.mp htaken)
  · rw [if_neg htaken, bind_eq_ok]
    refine ⟨fun ⟨z, hz, h⟩ => ⟨fun hmem => htaken (isSome_find?.mpr hmem), z, hz, ?_⟩,
      fun ⟨_, z, hz, h⟩ => ?_⟩
    · exact (pure_eq_ok.mp h).symm
    · exact ⟨z, hz, by rw [h]; rfl⟩

theorem redefineGlobal_eq_ok : m.redefineGlobal first last origin = .ok m' ↔
    ∃ z, makeGlobal m.bits first last origin = .ok z ∧ m' = { m with global := z } := by
  rw [redefineGlobal, bind_eq_ok]
  simp only [pure_eq_ok, @eq_comm _ m']

/-- A call on the zones of a program. -/
inductive Call
  | create (first last : Int) (name : String)
  | redefineGlobal (first last origin : Int)
  | moveTo (id : ZoneId) (address : Int)
  deriving DecidableEq, Repr

/-- What a call gives. -/
def call (m : ZoneMap) : Call → Except ZoneError ZoneMap
  | .create first last name => m.create first last name
  | .redefineGlobal first last origin => m.redefineGlobal first last origin
  | .moveTo id address => m.moveTo id address

/-- What a call needs to succeed. -/
def Call.Allowed (m : ZoneMap) : Call → Prop
  | create first last name => name ∉ m.names ∧ 0 ≤ first ∧ first ≤ last ∧ last ≤ maxAddress m.bits
  | redefineGlobal first last origin =>
    0 ≤ first ∧ first ≤ last ∧ last ≤ maxAddress m.bits ∧ first ≤ origin ∧ origin ≤ last + 1
  | moveTo id address => (m.get id).first ≤ address ∧ address ≤ (m.get id).last + 1

theorem exists_call_iff (c : Call) : (∃ m', m.call c = .ok m') ↔ c.Allowed m := by
  cases c with
  | create first last name => simp [call, Call.Allowed, create_eq_ok, Zone.make_eq_ok]
  | redefineGlobal first last origin =>
    simp [call, Call.Allowed, redefineGlobal_eq_ok, makeGlobal_eq_ok]
  | moveTo id address => simp [call, Call.Allowed, moveTo_eq_ok]

/-- The zones after a call. One that fails leaves them as they are. -/
def apply (m : ZoneMap) (c : Call) : ZoneMap :=
  match m.call c with
  | .ok m' => m'
  | .error _ => m

/-- The zones after some calls. -/
def applyAll (m : ZoneMap) (calls : List Call) : ZoneMap := calls.foldl apply m

theorem applyAll_append (m : ZoneMap) (calls more : List Call) :
    m.applyAll (calls ++ more) = (m.applyAll calls).applyAll more := List.foldl_append

/-! ## What calls keep -/

/-- What holds of all zones of an address space. -/
structure Sound (m : ZoneMap) (bits : Nat) : Prop where
  bits_eq : m.bits = bits
  global_name : m.global.name = globalName
  names_nodup : m.names.Nodup
  fits : ∀ z ∈ m.toList, z.Fits bits

namespace Sound

/-- Only `GLOBAL`, over the whole address space. -/
theorem of_make (h : make bits origin = .ok m) : m.Sound bits := by
  obtain ⟨z, hz, h⟩ := bind_eq_ok.mp h
  cases pure_eq_ok.mp h
  obtain ⟨hfits, hname⟩ := fits_of_makeGlobal hz
  exact ⟨rfl, hname, List.nodup_singleton _, List.forall_mem_singleton.mpr hfits⟩

/-- A new zone comes last. -/
theorem of_create (hm : m.Sound bits) (h : m.create first last name = .ok m') :
    m'.Sound bits ∧ m'.names = m.names ++ [name] := by
  obtain ⟨hnew, z, hz, rfl⟩ := create_eq_ok.mp h
  obtain ⟨hfits, hname⟩ := Zone.fits_of_make hz
  have hnames : names { m with others := m.others ++ [z] } = m.names ++ [name] := by
    simp [names, toList, hname]
  refine ⟨⟨hm.bits_eq, hm.global_name, ?_, ?_⟩, hnames⟩
  · rw [hnames]
    rw [← List.concat_eq_append]
    exact hm.names_nodup.concat hnew
  · intro z' hz'
    have hmem : z' ∈ m.toList ∨ z' = z := by simpa [toList, or_assoc] using hz'
    rcases hmem with hold | rfl
    · exact hm.fits z' hold
    · rw [← hm.bits_eq]
      exact hfits

/-- `GLOBAL` keeps its name and its number. -/
theorem of_redefineGlobal (hm : m.Sound bits) (h : m.redefineGlobal first last origin = .ok m') :
    m'.Sound bits ∧ m'.names = m.names := by
  obtain ⟨z, hz, rfl⟩ := redefineGlobal_eq_ok.mp h
  obtain ⟨hfits, hname⟩ := fits_of_makeGlobal hz
  have hnames : names { m with global := z } = m.names := by
    simp [names, toList, hname, hm.global_name]
  refine ⟨⟨hm.bits_eq, hname, by rw [hnames]; exact hm.names_nodup, ?_⟩, hnames⟩
  intro z' hz'
  rcases List.mem_cons.mp hz' with rfl | hother
  · rw [← hm.bits_eq]
    exact hfits
  · exact hm.fits z' (List.mem_cons_of_mem _ hother)

/-- Moving a cursor changes nothing else. -/
theorem of_moveTo {address : Int} (hm : m.Sound bits) (h : m.moveTo id address = .ok m') :
    m'.Sound bits ∧ m'.names = m.names := by
  have hranges := SameRanges.of_moveTo h
  have hnames : m'.names = m.names := by
    have hrewind := congrArg (List.map Zone.name) hranges
    rwa [List.map_map, List.map_map] at hrewind
  obtain ⟨z, hmove, hset⟩ := bind_eq_ok.mp h
  cases pure_eq_ok.mp hset
  have hglobal : (m.set id z).global.name = globalName := by
    have hhead := (List.cons.inj hnames).1
    exact hhead.trans hm.global_name
  have hbits : (m.set id z).bits = m.bits := by cases id <;> rfl
  refine ⟨⟨hbits.trans hm.bits_eq, hglobal, by rw [hnames]; exact hm.names_nodup, ?_⟩, hnames⟩
  intro z' hz'
  rw [toList_set] at hz'
  rcases List.mem_or_eq_of_mem_set hz' with hold | rfl
  · exact hm.fits z' hold
  · exact (hm.fits _ (m.get_mem_toList id)).moveTo hmove

/-- **What a call keeps.** The names only get more, at the end. -/
theorem of_call {c : Call} (hm : m.Sound bits) (h : m.call c = .ok m') :
    m'.Sound bits ∧ m.names <+: m'.names := by
  cases c with
  | create first last name =>
    obtain ⟨hm', hnames⟩ := hm.of_create h
    exact ⟨hm', [name], hnames.symm⟩
  | redefineGlobal first last origin =>
    obtain ⟨hm', hnames⟩ := hm.of_redefineGlobal h
    exact ⟨hm', [], by rw [List.append_nil, hnames]⟩
  | moveTo id address =>
    obtain ⟨hm', hnames⟩ := hm.of_moveTo h
    exact ⟨hm', [], by rw [List.append_nil, hnames]⟩

theorem apply (hm : m.Sound bits) (c : Call) :
    (m.apply c).Sound bits ∧ m.names <+: (m.apply c).names := by
  unfold ZoneMap.apply
  cases hc : m.call c with
  | ok m' => exact hm.of_call hc
  | error e => exact ⟨hm, List.prefix_rfl⟩

/-- What any number of calls keeps. -/
theorem applyAll (hm : m.Sound bits) (calls : List Call) :
    (m.applyAll calls).Sound bits ∧ m.names <+: (m.applyAll calls).names := by
  induction calls generalizing m with
  | nil => exact ⟨hm, List.prefix_rfl⟩
  | cons c rest ih =>
    obtain ⟨hc, hnames⟩ := hm.apply c
    obtain ⟨hrest, hmore⟩ := ih hc
    exact ⟨hrest, hnames.trans hmore⟩

/-- A new zone gets the next number. -/
theorem find?_of_create (hm : m.Sound bits) (h : m.create first last name = .ok m') :
    m'.find? name = some m.toList.length := by
  obtain ⟨hnew, -⟩ := create_eq_ok.mp h
  have hnone : m.names.findIdx? (· == name) = none := by
    simpa [List.findIdx?_eq_none_iff] using fun other hother (heq : other = name) =>
      hnew (heq ▸ hother)
  rw [find?_eq, (hm.of_create h).2, List.findIdx?_append, hnone]
  simp [names]

end Sound

/-- **Zones stay sound, whatever is done to them.** From the zones that a program begins with, let
any calls be made, whether they succeed or fail. Then zone zero is `GLOBAL`, and no name is there
twice. Every zone is a range of the address space with its cursor inside or right behind it. A call
succeeds exactly if it is allowed to; if it fails, it leaves all zones as they are. A new zone gets
the next number, and a name keeps its number in all later calls. -/
theorem zones_sound_after_calls (bits : Nat) (hbits : bits ≤ 126) (origin : Int) (start : ZoneMap)
    (hstart : make bits origin = .ok start) (calls : List Call) :
    let m := start.applyAll calls
    (m.get 0).name = "GLOBAL" ∧ m.find? "GLOBAL" = some 0 ∧ (m.toList.map Zone.name).Nodup ∧
    (∀ z ∈ m.toList, 0 ≤ z.first ∧ z.first ≤ z.last ∧ z.last ≤ 2 ^ bits - 1 ∧
      z.first ≤ z.cursor ∧ z.cursor ≤ z.last + 1) ∧
    (∀ c, ((∃ m', m.call c = .ok m') ↔ c.Allowed m) ∧
      ∀ e, m.call c = .error e → start.applyAll (calls ++ [c]) = m) ∧
    (∀ first last name m', m.create first last name = .ok m' →
      m'.find? name = some m.toList.length) ∧
    ∀ more name id, m.find? name = some id →
      (start.applyAll (calls ++ more)).find? name = some id := by
  intro m
  obtain ⟨hm, -⟩ := (Sound.of_make hstart).applyAll calls
  refine ⟨hm.global_name, ?_, hm.names_nodup, fun z hz => ?_,
    fun c => ⟨exists_call_iff c, fun e he => ?_⟩, fun first last name m' h => hm.find?_of_create h,
    fun more name id hid => ?_⟩
  · have hglobal : m.global.name = "GLOBAL" := hm.global_name
    simp [find?, toList, List.findIdx?_cons, hglobal]
  · obtain ⟨hfirst, hle, hlast, hcursor, hcursor'⟩ := hm.fits z hz
    rw [maxAddress_eq hbits] at hlast
    exact ⟨hfirst, hle, hlast, hcursor, hcursor'⟩
  · have hstep : m.apply c = m := by rw [ZoneMap.apply, he]
    rw [applyAll_append]
    exact hstep
  · rw [applyAll_append]
    exact find?_of_names (hm.applyAll more).2 hid

/-- A zone is filled up, and `GLOBAL` gets another range. A name that is taken, a range that is too
large and a cursor behind a full zone are refused; whatever comes later, the zones keep their
numbers. -/
theorem zones_sound_after_calls_full_zone :
    let calls : List Call :=
      [.create 0x8000 0x80ff "rom", .create 0 1 "rom", .moveTo 1 0x8100, .moveTo 1 0x8101,
        .redefineGlobal 0x100 0x1ff 0x200, .redefineGlobal 0x100 0x1ff 0x201,
        .create 0 0x10000 "large", .create 0 0 "GLOBAL", .create 0xffff 0xffff "last"]
    ∃ start, make 16 0x10 = .ok start ∧
      (start.applyAll calls).toList.map (fun z => (z.name, z.first, z.last, z.cursor)) =
        [("GLOBAL", 0x100, 0x1ff, 0x200), ("rom", 0x8000, 0x80ff, 0x8100),
          ("last", 0xffff, 0xffff, 0xffff)] ∧
      ∀ more, (start.applyAll (calls ++ more)).find? "last" = some 2 := by
  intro calls
  let global : Zone :=
    { name := globalName, bits := 16, first := 0, last := 0xffff, cursor := 0x10 }
  have hstart : make 16 0x10 = .ok { bits := 16, global, others := [] } := by decide +kernel
  obtain ⟨-, -, -, -, -, -, hkeeps⟩ := zones_sound_after_calls 16 (by decide) _ _ hstart calls
  exact ⟨_, hstart, by decide +kernel, fun more => hkeeps more "last" 2 (by decide +kernel)⟩

end ZoneMap

end Retarget
