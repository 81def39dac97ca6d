import Retarget.Proofs.Assembly.Target
import Retarget.Proofs.Assembly.Window
import Retarget.Proofs.Isa.Checked
import Retarget.Proofs.Zone.Calls

/-!
# Blocks of words

An instruction set may define blocks of words that every program has. They are placed at their
addresses and not at the cursor of a zone.

* `IsaSpec.block_size_lt`: the numbers of a configuration have 64 bits;
* `Session.placeBlocks_isBlock`: the item of each block;
* `Image.getElem?_words`, `IsBlock.getElem?_words`: what an image without a first and a last address
  has where an item is, and where a block is.
-/

namespace Retarget

/-! ## Numbers of a configuration -/

theorem Document.asInt_lt {d : Document} {v : Int} (h : d.asInt = some v) : v < 2 ^ (63 : Nat) := by
  have hfits : ∀ u : Int,
      (if -2 ^ (63 : Nat) ≤ u ∧ u < 2 ^ (63 : Nat) then some u else none) = some v →
      v < 2 ^ (63 : Nat) := by
    intro u hu
    split at hu
    · cases hu
      exact ‹_ ∧ _›.2
    · cases hu
  unfold asInt at h
  dsimp only at h
  split at h
  · exact hfits _ h
  · obtain ⟨⟨minus, n⟩, -, h⟩ := Option.bind_eq_some_iff.mp h
    exact hfits _ h
  · cases h

/-- Where an item of a list comes from. -/
theorem exists_of_mem_mapM {α β : Type} {f : α → Option β} {xs : List α} {ys : List β}
    (h : xs.mapM f = some ys) {y : β} (hy : y ∈ ys) : ∃ x, f x = some y := by
  induction xs generalizing ys with
  | nil =>
    cases h
    cases hy
  | cons x xs ih =>
    rw [List.mapM_cons] at h
    obtain ⟨z, hz, h⟩ := Option.bind_eq_some_iff.mp h
    obtain ⟨zs, hzs, h⟩ := Option.bind_eq_some_iff.mp h
    cases h
    rcases List.mem_cons.mp hy with rfl | hy
    · exact ⟨x, hz⟩
    · exact ih hzs hy

theorem Document.exists_of_mem_asList {α : Type} {f : Document → Option α} {d : Document}
    {xs : List α} (h : d.asList f = some xs) {x : α} (hx : x ∈ xs) : ∃ d', f d' = some x := by
  unfold asList at h
  split at h
  · exact exists_of_mem_mapM h hx
  · exact exists_of_mem_mapM h hx
  · split at h
    · cases h
      cases hx
    · cases h
  · cases h

theorem DataBlock.size_lt_of_decode {d : Document} {b : DataBlock}
    (h : DataBlock.decode d = some b) : b.size < 2 ^ (63 : Nat) := by
  obtain ⟨fields, -, h⟩ := Option.bind_eq_some_iff.mp h
  split at h
  · obtain ⟨name, -, h⟩ := Option.bind_eq_some_iff.mp h
    obtain ⟨address, -, h⟩ := Option.bind_eq_some_iff.mp h
    obtain ⟨value, -, h⟩ := Option.bind_eq_some_iff.mp h
    obtain ⟨size, hsize, h⟩ := Option.bind_eq_some_iff.mp h
    cases h
    obtain ⟨field, -, hsize⟩ := Option.bind_eq_some_iff.mp hsize
    exact Document.asInt_lt hsize
  · cases h

theorem PredefinedSpec.block_size_lt {d : Document} {spec : PredefinedSpec}
    (h : PredefinedSpec.decode d = some spec) : ∀ b ∈ spec.blocks, b.size < 2 ^ (63 : Nat) := by
  intro b hb
  obtain ⟨fields, -, h⟩ := Option.bind_eq_some_iff.mp h
  split at h
  · obtain ⟨constants, -, h⟩ := Option.bind_eq_some_iff.mp h
    obtain ⟨blocks, hblocks, h⟩ := Option.bind_eq_some_iff.mp h
    obtain ⟨zones, -, h⟩ := Option.bind_eq_some_iff.mp h
    obtain ⟨symbols, -, h⟩ := Option.bind_eq_some_iff.mp h
    obtain ⟨memory, -, h⟩ := Option.bind_eq_some_iff.mp h
    cases h
    unfold Document.orDefault at hblocks
    split at hblocks
    · cases hblocks
      cases hb
    · obtain ⟨d', hd'⟩ := Document.exists_of_mem_asList hblocks hb
      exact DataBlock.size_lt_of_decode hd'
  · cases h

theorem IsaSpec.block_size_lt {d : Document} {spec : IsaSpec} (h : IsaSpec.decode d = some spec) :
    ∀ b ∈ spec.predefined.blocks, b.size < 2 ^ (63 : Nat) := by
  intro b hb
  obtain ⟨fields, -, h⟩ := Option.bind_eq_some_iff.mp h
  split at h
  · obtain ⟨description, -, h⟩ := Option.bind_eq_some_iff.mp h
    obtain ⟨general, -, h⟩ := Option.bind_eq_some_iff.mp h
    obtain ⟨predefined, hpredefined, h⟩ := Option.bind_eq_some_iff.mp h
    obtain ⟨operandSets, -, h⟩ := Option.bind_eq_some_iff.mp h
    obtain ⟨instructions, -, h⟩ := Option.bind_eq_some_iff.mp h
    obtain ⟨macros, -, h⟩ := Option.bind_eq_some_iff.mp h
    cases h
    cases predefined with
    | none => cases hb
    | some predefined =>
      unfold Document.optional at hpredefined
      split at hpredefined
      · cases hpredefined
      · split at hpredefined
        · cases hpredefined
        · obtain ⟨_, hpredefined, heq⟩ := Option.map_eq_some_iff.mp hpredefined
          cases heq
          exact PredefinedSpec.block_size_lt hpredefined b hb
  · cases h

theorem Isa.blocks_ofSpec {spec : IsaSpec} {other : String} {isa : Isa}
    (h : Isa.ofSpec spec other = .ok isa) : isa.blocks = spec.predefined.blocks := by
  obtain ⟨general, -, hchecks⟩ := checks_of_ofSpec h
  exact hchecks.blocks_eq

/-! ## The zone `GLOBAL` -/

/-- `GLOBAL` has no negative addresses. -/
theorem Session.startZones_global_nonneg {isa : Isa} {zones : ZoneMap}
    (h : startZones isa = .ok zones) : 0 ≤ zones.global.first := by
  obtain ⟨m, hm, h⟩ := bind_eq_ok.mp h
  obtain ⟨global, hglobal, hm⟩ := bind_eq_ok.mp (Error.lift_eq_ok.mp hm)
  have hfirst : 0 ≤ m.global.first := by
    cases hm
    exact (ZoneMap.fits_of_makeGlobal hglobal).1.first_nonneg
  refine Gives.foldlM (P := fun m : ZoneMap => 0 ≤
    m.global.first) ?_ hfirst _ zones (Error.lift_eq_ok.mp h)
  intro m z hm m' hm'
  split at hm'
  · obtain ⟨global, hglobal, rfl⟩ := ZoneMap.redefineGlobal_eq_ok.mp hm'
    exact (ZoneMap.fits_of_makeGlobal hglobal).1.first_nonneg
  · obtain ⟨-, z, -, rfl⟩ := ZoneMap.create_eq_ok.mp hm'
    exact hm

/-! ## The items of blocks -/

/-- The item of a block, at its address. -/
structure IsBlock (b : DataBlock) (p : PlacedItem) : Prop where
  statement_eq : p.item.statement = .fill (Expression.literal b.size) (Expression.literal b.value)
  muted_eq : p.item.muted = false
  address_eq : p.place.address = b.address
  wordCount_eq : p.place.wordCount = (b.size % 2 ^ (64 : Nat)).toNat

theorem Session.isBlock_of_place {s : Session} {b : DataBlock} {place : Placement} {next : Int}
    (h : (s.blockItem b).place s.env b.address = .ok (place, next)) :
    IsBlock b { item := s.blockItem b, place } := by
  obtain ⟨⟨address, size⟩, hextent, h⟩ := bind_eq_ok.mp h
  cases h
  obtain ⟨count, hcount, hextent⟩ := bind_eq_ok.mp hextent
  cases hextent
  obtain ⟨size, hsize, hcount⟩ := bind_eq_ok.mp hcount
  cases hsize
  split at hcount
  · cases hcount
  · cases hcount
    exact ⟨rfl, rfl, rfl, rfl⟩

/-- **Every block is placed at its address.** -/
theorem Session.placeBlocks_isBlock {s s' : Session} {blocks : List DataBlock}
    {placed : List PlacedItem} (h : s.placeBlocks blocks = .ok (s', placed)) :
    s'.isa = s.isa ∧ List.Forall₂ IsBlock blocks placed := by
  induction blocks generalizing s placed with
  | nil =>
    cases h
    exact ⟨rfl, .nil⟩
  | cons b blocks ih =>
    obtain ⟨⟨place, next⟩, hplace, h⟩ := bind_eq_ok.mp h
    obtain ⟨scopes, -, h⟩ := bind_eq_ok.mp h
    obtain ⟨⟨t, others⟩, hothers, h⟩ := bind_eq_ok.mp h
    cases h
    obtain ⟨hisa, hblocks⟩ := ih hothers
    exact ⟨hisa, .cons (isBlock_of_place hplace) hblocks⟩

/-- The low bits of a number. -/
theorem Number.bits_mod {width : Nat} (h : width ≤ 128) (v : Int) :
    bits v % 2 ^ width = (v % 2 ^ width).toNat := by
  have hdvd : ((2 ^ width : Nat) : Int) ∣ ((2 ^ 128 : Nat) : Int) :=
    Int.natCast_dvd_natCast.mpr (Nat.pow_dvd_pow 2 h)
  have hnonneg : 0 ≤ v % ((2 ^ 128 : Nat) : Int) := Int.emod_nonneg v (by decide)
  have hpow : (2 : Int) ^ width = ((2 ^ width : Nat) : Int) := by push_cast; rfl
  rw [bits, pattern, BitVec.toNat_ofInt, hpow, ← Int.emod_emod_of_dvd v hdvd,
    Int.toNat_emod hnonneg (Int.natCast_nonneg _), Int.toNat_natCast]

/-- **The words of a block** are all the same. -/
theorem IsBlock.words {b : DataBlock} {p : PlacedItem} {c : CodedItem} {env : Environment}
    (h : IsBlock b p) (hc : CodedFrom env p c) :
    ∃ w : Word, w.value = (b.value % 2 ^ env.isa.wordSize).toNat ∧
      w.geometry = env.isa.geometry ∧ c.words = List.replicate p.place.wordCount w := by
  obtain ⟨warnings, hwords⟩ := hc.words_eq
  have hwords := (Item.words_eq_ok.mp hwords).1
  unfold Item.wordsAt at hwords
  rw [h.statement_eq] at hwords
  obtain ⟨v, hv, hwords⟩ := bind_eq_ok.mp hwords
  obtain ⟨w, hw, hwords⟩ := bind_eq_ok.mp hwords
  obtain ⟨hreplicate, -⟩ := Prod.mk.inj (pure_eq_ok.mp hwords)
  cases hv
  obtain ⟨hvalue, hgeometry⟩ := Word.make_eq_ok (Error.liftAt_eq_ok.mp hw)
  have hsize : env.isa.wordSize ≤ 128 := by
    rw [Isa.wordSize, ← hgeometry]
    exact w.size_le
  refine ⟨w, ?_, hgeometry, hreplicate.symm⟩
  rw [hvalue, Nat.min_eq_left hsize, Number.bits_mod hsize]

/-! ## Where blocks are in an image -/

/-- An image from address 0 on shows every item that is not muted and has no negative address. -/
theorem Image.getElem?_words {env : Environment} {isa : Isa} {options : Options}
    {placed : List PlacedItem} {coded : List CodedItem} {words : List Word}
    {c : CodedItem} {a : Nat} (hfrom : List.Forall₂ (CodedFrom env) (Job.sortItems placed) coded)
    (hcheck : checkOverlaps none coded = .ok ()) (hstart : options.start = none)
    (hstop : options.stop = none) (hwords : Image.words isa options coded = .ok words)
    (hc : c ∈ visible coded) (haddress : 0 ≤ c.address) (hcovers : c.place.Covers a) :
    words[a]? = c.words[(a - c.address).toNat]? := by
  have hmem := (mem_visible.mp hc).1
  have hlen := visible_length_words hfrom c hc
  have hapart := (checkOverlaps_eq_ok_iff_apart (CodedFrom.sorted hfrom)).mp hcheck
  have hin : (a - c.address).toNat < c.words.length := by
    simp only [Placement.Covers] at hcovers
    rw [CodedItem.address] at haddress ⊢
    omega
  unfold Image.words at hwords
  rw [hstart, hstop, Option.map_none, Option.none_or] at hwords
  cases hlast : lastAddress coded with
  | none =>
    have hzero := lastAddress_eq_none hlast c hmem
    have hpos := hcovers.wordCount_pos
    omega
  | some last =>
    rw [hlast] at hwords
    obtain ⟨fill, -, hwords⟩ := bind_eq_ok.mp hwords
    cases hwords
    obtain ⟨stop, hends⟩ := exists_isGreatest_stops 0 last coded
    have ha_last : (a : Int) ≤ last := (lastAddress_isGreatest hlast).2 ⟨c, hmem, hcovers⟩
    have hlast_stop : last + 1 ≤ stop := hends.2 (.inl rfl)
    have hwindow : c ∈ window 0 last coded := by
      have hle : c.address ≤ a := hcovers.1
      exact mem_window.mpr ⟨hc, haddress, by omega⟩
    have hwindow_apart : (window 0 last coded).Pairwise fun i j => i.place.Apart j.place :=
      (hapart.filter _).filter _
    show (wordsFrom fill last 0 (visible coded))[a]? = _
    rw [wordsFrom_eq_window_span (visible_length_words hfrom)
      (visible_stop_le_address hfrom hcheck) hends, getElem?_span (by omega), Int.zero_add,
      wordAt_of_covers hwindow_apart hwindow hcovers, List.getD_eq_getElem _ _ hin,
      List.getElem?_eq_getElem hin]

/-- The addresses of a block. -/
def DataBlock.Covers (b : DataBlock) (a : Int) : Prop := b.address ≤ a ∧ a < b.address + b.size

/-- **A block in an image**, which has its words if its address is not negative. -/
theorem IsBlock.getElem?_words {env : Environment} {isa : Isa} {options : Options}
    {placed : List PlacedItem} {coded : List CodedItem} {words : List Word} {b : DataBlock}
    {p : PlacedItem} (h : IsBlock b p) (hp : p ∈ placed) (hpos : 0 < b.size)
    (hsize : b.size < 2 ^ (63 : Nat))
    (hfrom : List.Forall₂ (CodedFrom env) (Job.sortItems placed) coded)
    (hcheck : checkOverlaps none coded = .ok ()) (hstart : options.start = none)
    (hstop : options.stop = none) (hwords : Image.words isa options coded = .ok words) :
    ∃ w : Word, w.value = (b.value % 2 ^ env.isa.wordSize).toNat ∧ w.geometry = env.isa.geometry ∧
      (0 ≤ b.address → ∀ a, b.Covers a → ∃ n : Nat, a = n ∧ words[n]? = some w) := by
  obtain ⟨c, hc, hcp⟩ := exists_of_forall₂_left hfrom (Job.mem_sortItems.mpr hp)
  obtain ⟨w, hvalue, hgeometry, hreplicate⟩ := h.words hcp
  have haddress : c.address = b.address := by rw [CodedItem.address, hcp.place_eq, h.address_eq]
  have hcount : c.place.wordCount = b.size.toNat := by
    rw [hcp.place_eq, h.wordCount_eq]
    omega
  have hvisible : c ∈ Image.visible coded :=
    Image.mem_visible.mpr ⟨hc, by omega, by rw [hcp.item_eq, h.muted_eq]⟩
  refine ⟨w, hvalue, hgeometry, fun hnonneg a ha => ?_⟩
  obtain ⟨hle, hlt⟩ := ha
  obtain ⟨n, rfl⟩ := Int.eq_ofNat_of_zero_le (show 0 ≤ a by omega)
  have hcovers : c.place.Covers n := by
    show c.address ≤ n ∧ (n : Int) < c.address + c.place.wordCount
    omega
  refine ⟨n, rfl, ?_⟩
  rw [Image.getElem?_words hfrom hcheck hstart hstop hwords hvisible (by omega) hcovers, hreplicate,
    ← hcp.place_eq, List.getElem?_replicate_of_lt (by omega)]

/-- A block is in a zone if its first and its last address are. -/
theorem DataBlock.forall_contains_iff {b : DataBlock} (hsize : 0 < b.size) {z : Zone} :
    (∀ a, b.Covers a → z.contains a = true) ↔ z.first ≤ b.address ∧
      b.address + b.size ≤ z.last + 1 := by
  simp only [Zone.contains, Bool.and_eq_true, decide_eq_true_eq, Covers]
  constructor
  · intro h
    have hfirst := h b.address ⟨by omega, by omega⟩
    have hlast := h (b.address + b.size - 1) ⟨by omega, by omega⟩
    omega
  · intro h a ha
    omega

/-! ## A configuration with one block -/

/-- Addresses of 4 bits and words of 8 bits, and a block. -/
def blockConfiguration (address value size : Int) : Document :=
  .map [
    (.text "general", .map [(.text "address_size", .integer 4), (.text "word_size", .integer 8),
      (.text "min_version", .text "0.1.0")]),
    (.text "predefined", .map [(.text "data", .list [.map [(.text "name", .text "block"),
      (.text "address", .integer address), (.text "value", .integer value),
      (.text "size", .integer size)]])]), (.text "instructions", .map [])]

/-- A program that is one file. -/
def Job.ofText (text : String) : Job :=
  { tree := { files := [(["main.asm"], some text)], directories := [] }, directory := [],
    source := "main.asm", options := {} }

/-- Assemble a text for a configuration. -/
def assembleText (d : Document) (text : String) : Option (Isa × Program) := do
  let spec ← IsaSpec.decode d
  let isa ← (Isa.ofSpec spec "isa").toOption
  let p ← ((Job.ofText text).assemble isa).result.toOption
  return (isa, p)

theorem assembleText_eq_some {d : Document} {text : String} {isa : Isa} {p : Program}
    (h : assembleText d text = some (isa, p)) :
    ∃ spec, IsaSpec.decode d = some spec ∧ Isa.ofSpec spec "isa" = .ok isa ∧
      ((Job.ofText text).assemble isa).result = .ok p := by
  obtain ⟨spec, hspec, h⟩ := Option.bind_eq_some_iff.mp h
  obtain ⟨isa', hisa, h⟩ := Option.bind_eq_some_iff.mp h
  obtain ⟨p', hp, h⟩ := Option.bind_eq_some_iff.mp h
  cases h
  exact ⟨spec, hspec, toOption_eq_some.mp hisa, toOption_eq_some.mp hp⟩

/-! ## Blocks of a program -/

/-- **Blocks in an image.** Let a program be assembled for an instruction set that a configuration
defines, with neither a first nor a last address of the image set. Each block with words has one
word all over its addresses: the low bits of its value. The image has this word at all of them
exactly if the address of the block is not negative. They are in the zone `GLOBAL` as well exactly
if the block starts and ends in it, which nothing checks. -/
theorem assemble_blocks {d : Document} {spec : IsaSpec} {other : String} {isa : Isa} {j : Job}
    {p : Program} (hspec : IsaSpec.decode d = some spec) (hisa : Isa.ofSpec spec other = .ok isa)
    (hstart : j.options.start = none) (hstop : j.options.stop = none)
    (hrun : (j.assemble isa).result = .ok p) :
    ∃ zones words, Session.startZones isa = .ok zones ∧
      Image.words isa j.options p.items = .ok words ∧
      p.image = wordsToBytes words true ∧ ∀ b ∈ isa.blocks, 0 < b.size →
        ∃ w : Word, w.value = (b.value % 2 ^ isa.wordSize).toNat ∧ w.geometry = isa.geometry ∧
          ((∀ a, b.Covers a → ∃ n : Nat, a = n ∧ words[n]? = some w) ↔ 0 ≤ b.address) ∧
          ((∀ a, b.Covers a → zones.global.contains a = true ∧ ∃ n : Nat, a = n ∧
            words[n]? = some w) ↔
            zones.global.first ≤ b.address ∧ b.address + b.size ≤ zones.global.last + 1) := by
  obtain ⟨s, s', t, t', blocks, placed, words, hsession, hblocks, ht, hcode, hwords, himage⟩ :=
    Job.assemble_eq_ok hrun
  obtain ⟨zones, hzones, hsession⟩ := bind_eq_ok.mp hsession
  obtain ⟨symbols, -, hsession⟩ := bind_eq_ok.mp hsession
  obtain ⟨scopes, -, hsession⟩ := bind_eq_ok.mp hsession
  cases hsession
  obtain ⟨hs', hforall⟩ := Session.placeBlocks_isBlock hblocks
  obtain ⟨hcoded, hcheck⟩ := Session.code_eq_ok.mp hcode
  have hfrom := Session.codeAll_codedFrom hcoded
  have hfirst := Session.startZones_global_nonneg hzones
  have hisa' : t.env.isa = isa := ht.trans hs'
  refine ⟨zones, words, hzones, hwords, himage, fun b hb hpos => ?_⟩
  have hsize := IsaSpec.block_size_lt hspec b (by rwa [← Isa.blocks_ofSpec hisa])
  obtain ⟨q, hq, hblock⟩ := exists_of_forall₂_left hforall hb
  obtain ⟨w, hvalue, hgeometry, hshown⟩ :=
    hblock.getElem?_words (List.mem_append_right placed hq) hpos hsize
    hfrom hcheck hstart hstop hwords
  rw [hisa'] at hvalue hgeometry
  refine ⟨w, hvalue, hgeometry, ⟨fun h => ?_, hshown⟩, ?_⟩
  · obtain ⟨n, hn, -⟩ := h b.address ⟨by omega, by omega⟩
    omega
  · rw [← DataBlock.forall_contains_iff hpos]
    constructor
    · exact fun h a ha => (h a ha).1
    · intro h a ha
      have hglobal := (DataBlock.forall_contains_iff hpos).mp h
      exact ⟨h a ha, hshown (by omega) a ha⟩

/-- A block at the last two addresses of `GLOBAL`, whose value is cut down to a word. It is not
muted with the program. -/
theorem assemble_blocks_last_addresses :
    ∃ spec isa p zones words, IsaSpec.decode (blockConfiguration 14 (-0x156) 2) = some spec ∧
      Isa.ofSpec spec "isa" = .ok isa ∧ ((Job.ofText "#mute").assemble isa).result = .ok p ∧
      Session.startZones isa = .ok zones ∧ Image.words isa {} p.items = .ok words ∧
      ∃ w : Word, w.value = 0xaa ∧ ∀ a : Int, 14 ≤ a → a < 16 →
        zones.global.contains a = true ∧ ∃ n : Nat, a = n ∧ words[n]? = some w := by
  have hview : ((assembleText (blockConfiguration 14 (-0x156) 2) "#mute").map fun r =>
      (r.1.blocks, r.1.wordSize,
        (Session.startZones r.1).toOption.map fun z => (z.global.first, z.global.last))) =
        some ([{ name := "block", address := 14, value := -0x156, size := 2 }], 8,
          some (0, 15)) := by
    decide +kernel
  obtain ⟨⟨isa, p⟩, hrun, hview⟩ := Option.map_eq_some_iff.mp hview
  obtain ⟨hblocks, hview⟩ := Prod.mk.inj hview
  obtain ⟨hsize, hzones⟩ := Prod.mk.inj hview
  obtain ⟨spec, hspec, hisa, hrun⟩ := assembleText_eq_some hrun
  obtain ⟨zones, words, hstart, hwords, -, hall⟩ := assemble_blocks hspec hisa rfl rfl hrun
  have hmem : { name := "block", address := 14, value := -0x156, size := 2 } ∈ isa.blocks := by
    rw [show isa.blocks = _ from hblocks]
    exact List.mem_singleton_self _
  obtain ⟨w, hvalue, -, -, hinside⟩ := hall _ hmem (by decide)
  dsimp only at hsize hzones
  rw [hstart] at hzones
  obtain ⟨hfirst, hlast⟩ := Prod.mk.inj (Option.some.inj hzones)
  rw [hsize] at hvalue
  have hall := hinside.mpr ⟨by rw [hfirst]; decide, by rw [hlast]; decide⟩
  exact ⟨spec, isa, p, zones, words, hspec, hisa, hrun, hstart, hwords, w, hvalue,
    fun a hle hlt => hall a ⟨hle, hlt⟩⟩

/-- A block from address -1 on is accepted: it starts below `GLOBAL`, and at address 0 the image has
the fill word instead of its second word. -/
theorem assemble_block_below_global :
    ∃ spec isa p zones words, IsaSpec.decode (blockConfiguration (-1) 0xaa 2) = some spec ∧
      Isa.ofSpec spec "isa" = .ok isa ∧ ((Job.ofText "").assemble isa).result = .ok p ∧
      isa.blocks = [{ name := "block", address := -1, value := 0xaa, size := 2 }] ∧
      Session.startZones isa = .ok zones ∧ Image.words isa {} p.items = .ok words ∧
      zones.global.contains (-1) = false ∧ words.map Word.value = [0] := by
  have hview : ((assembleText (blockConfiguration (-1) 0xaa 2) "").map fun r =>
      (r.1.blocks, (Session.startZones r.1).toOption.map fun z => z.global.contains (-1),
        (Image.words r.1 {} r.2.items).toOption.map fun words => words.map Word.value)) =
        some ([{ name := "block", address := -1, value := 0xaa, size := 2 }], some false,
          some [0]) := by
    decide +kernel
  obtain ⟨⟨isa, p⟩, hrun, hview⟩ := Option.map_eq_some_iff.mp hview
  obtain ⟨hblocks, hview⟩ := Prod.mk.inj hview
  obtain ⟨hzones, hwords⟩ := Prod.mk.inj hview
  obtain ⟨zones, hstart, hzones⟩ := Option.map_eq_some_iff.mp hzones
  obtain ⟨words, himage, hwords⟩ := Option.map_eq_some_iff.mp hwords
  obtain ⟨spec, hspec, hisa, hrun⟩ := assembleText_eq_some hrun
  exact ⟨spec, isa, p, zones, words, hspec, hisa, hrun, hblocks, toOption_eq_some.mp hstart,
    toOption_eq_some.mp himage, hzones, hwords⟩

end Retarget
