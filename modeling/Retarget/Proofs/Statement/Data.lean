import Retarget.Proofs.Bits.Serial
import Retarget.Proofs.Bits.Signed
import Retarget.Proofs.Field.Layout
import Retarget.Proofs.Isa.Checked
import Retarget.Statement.Data

/-!
# The words of data statements

Values and words may have any widths, in any relation to each other. The words of an item are those
of its number, cut down to the width of the values, and a warning says so where that changes the
value of an expression. Packed texts put the bytes of their characters side by side.

* `DataItem.number`: what an item stands for; `DataLine.warning?`: the warning about it;
* `DataLine.exists_valueWords`: the words of a value, for all widths that directives have;
* `DataLine.exists_itemsWords`: the words of all items, one item after the other;
* `DataLine.exists_packBytes`: the words of packed bytes, byte by byte.
-/

namespace Retarget

/-- The number that an item stands for. -/
def DataItem.number (isa : Isa) (labels : Labels) : DataItem → Except ExprError Int
  | .value e => e.eval labels
  | .char code => .ok code
  | .terminator => .ok isa.terminator

/-- The byte of an item: its number modulo 256. -/
def DataItem.IsByte (isa : Isa) (labels : Labels) (item : DataItem) (b : Nat) : Prop :=
  ∃ v, item.number isa labels = .ok v ∧ b = v % 256

namespace DataLine

variable {isa : Isa} {d : DataLine} {labels : Labels} {line : SourceLine} {item : DataItem}

/-! ## Reading -/

/-- A data statement that is read from a directive and its arguments, or from a text that stands
alone. -/
def IsRead (isa : Isa) (d : DataLine) : Prop :=
  (∃ directive bytes args line, valueBytes? directive = some bytes ∧
    read isa directive bytes args line = .ok d) ∨
    ∃ cs, ofText? isa cs = some d

theorem valueBytes_range {directive : String} {bytes : Nat}
    (h : valueBytes? directive = some bytes) : 1 ≤ bytes ∧ bytes ≤ 8 := by
  unfold valueBytes? at h
  split at h <;> cases h <;> decide

/-- Quoted arguments give characters and terminators. -/
theorem ne_value_of_readItems {directive : String} {args : List (List Char)} {items : List DataItem}
    (hargs : ∀ a ∈ args, (quotedChars a).isSome = true)
    (h : readItems directive line args = .ok items) : ∀ item ∈ items, ∀ e, item ≠ .value e := by
  induction args generalizing items with
  | nil =>
    cases h
    simp
  | cons arg args ih =>
    obtain ⟨harg, hargs⟩ := List.forall_mem_cons.mp hargs
    obtain ⟨cs, hcs⟩ := Option.isSome_iff_exists.mp harg
    rw [readItems, hcs] at h
    obtain ⟨rest, hrest, h⟩ := bind_eq_ok.mp h
    cases pure_eq_ok.mp h
    intro item hitem e
    rcases List.mem_append.mp hitem with hitem | hitem
    · rcases List.mem_append.mp hitem with hitem | hitem
      · obtain ⟨c, -, rfl⟩ := List.mem_map.mp hitem
        exact DataItem.noConfusion
      · split at hitem
        · rw [List.mem_singleton.mp hitem]
          exact DataItem.noConfusion
        · cases hitem
    · exact ih hargs hrest item hitem e

/-- The widths of values, and what is packed. -/
theorem IsRead.shape (h : d.IsRead isa) :
    0 < d.valueBits ∧ d.valueBits ≤ 64 ∧
      (d.packed = true → isa.packing = true ∧ ∀ item ∈ d.items, ∀ e, item ≠ .value e) := by
  obtain ⟨directive, bytes, args, line, hbytes, h⟩ | ⟨cs, h⟩ := h
  · have hrange := valueBytes_range hbytes
    unfold read at h
    dsimp only at h
    split at h
    · cases h
    · obtain ⟨items, hitems, h⟩ := bind_eq_ok.mp h
      cases pure_eq_ok.mp h
      refine ⟨by dsimp only; omega, by dsimp only; omega, fun hpacked => ?_⟩
      simp only [Bool.and_eq_true, List.all_eq_true] at hpacked
      exact ⟨hpacked.1.1, ne_value_of_readItems hpacked.1.2 hitems⟩
  · obtain ⟨body, -, rfl⟩ := Option.map_eq_some_iff.mp h
    refine ⟨Nat.lt_of_sub_eq_succ rfl, Nat.le_of_sub_eq_zero rfl,
      fun hpacked => ⟨hpacked, fun item hitem e => ?_⟩⟩
    rcases List.mem_append.mp hitem with hitem | hitem
    · obtain ⟨c, -, rfl⟩ := List.mem_map.mp hitem
      exact DataItem.noConfusion
    · rw [List.mem_singleton.mp hitem]
      exact DataItem.noConfusion

/-! ## Values -/

/-- A value that fits into a word takes one. -/
theorem ceilDiv_eq_one {size n : Nat} (hpos : 0 < n) (hle : n ≤ size) : n ⌈/⌉ size = 1 :=
  ceilDiv_eq_of_pad (show size - n < size by omega) (by omega)

theorem wordsPerValue_eq (hpos : 0 < d.valueBits) (hbits : d.valueBits ≤ 64) :
    d.wordsPerValue isa = d.valueBits ⌈/⌉ isa.wordSize := by
  unfold wordsPerValue
  split
  · rename_i hle
    exact (ceilDiv_eq_one hpos hle).symm
  · exact wordsFor_eq_ceilDiv (by omega)

theorem valid_geometry (hsize : isa.wordSize ≤ 128) : isa.geometry.Valid :=
  ⟨isa.size_pos, hsize, isa.segment_dvd⟩

/-- **The words of a value.** They are as few as have the bits of the value, and hold it side by
side. -/
theorem exists_valueWords (hsize : isa.wordSize ≤ 128) (hpos : 0 < d.valueBits)
    (hbits : d.valueBits ≤ 64) {value : Nat} (hvalue : value < 2 ^ d.valueBits) :
    ∃ words, d.valueWords isa value = .ok words ∧ words.length = d.valueBits ⌈/⌉ isa.wordSize ∧
      (∀ w ∈ words, w.geometry = isa.geometry) ∧
      ofBits ((isa.wordOrder.arrange words).flatMap Word.bits) = value := by
  have hwide : d.valueBits ≤ wholeBits isa.wordSize d.valueBits := le_wholeBits isa.size_pos _
  have hlt : value < 2 ^ wholeBits isa.wordSize d.valueBits :=
    Nat.lt_of_lt_of_le hvalue (Nat.pow_le_pow_right (by decide) hwide)
  unfold valueWords
  rw [wordsPerValue_eq hpos hbits]
  unfold wholeBits at hlt hwide
  split
  · rename_i hone
    rw [hone, Nat.one_mul] at hlt
    obtain ⟨w, hw⟩ := Word.make_of_valid (valid_geometry hsize) hlt
    refine ⟨[w], by rw [hw]; rfl, hone.symm, by simpa using (Word.make_eq_ok hw).2, ?_⟩
    have harrange : isa.wordOrder.arrange [w] = [w] := by cases isa.wordOrder <;> rfl
    rw [harrange, List.flatMap_singleton, Word.bits_of_make hw, ofBits_bitsOf]
    exact Nat.mod_eq_of_lt hlt
  · -- Words are narrower than the value then, so that both together have at most 128 bits.
    rename_i hmore
    have hnarrow : isa.wordSize < d.valueBits :=
      Nat.lt_of_not_le fun hle => hmore (ceilDiv_eq_one hpos hle)
    have htotal : d.valueBits ⌈/⌉ isa.wordSize * isa.wordSize ≤ 128 := by
      have := Nat.div_mul_le_self (d.valueBits + isa.wordSize - 1) isa.wordSize
      rw [Nat.ceilDiv_eq_add_pred_div]
      omega
    obtain ⟨v, hv⟩ := (Wide.exists_ofCount_iff isa.size_pos hsize value _ isa.wordOrder).mpr htotal
    obtain ⟨horder, hgeometry, hwords⟩ := Wide.ofCount_bits hv
    have hmem (w : Word) : w ∈ v.ordered ↔ w ∈ v.words := Endian.mem_arrange _
    refine ⟨v.ordered, by rw [hv]; rfl, ?_, fun w hw => ?_, ?_⟩
    · exact (Wide.ordered_sized hv).length_eq
    · rw [hgeometry w ((hmem w).mp hw), Geometry.fitted_eq isa.segment_dvd]
    · rw [Wide.ordered, Wide.arranged, horder, Endian.arrange_arrange, hwords,
        twosComplement_natCast, ofBits_bitsOf]
      exact Nat.mod_eq_of_lt hlt

/-! ## Items -/

/-- The warning about an item: one about an expression with a value that does not fit. -/
def warning? (d : DataLine) (labels : Labels) : DataItem → Option String
  | .value e => (e.eval labels).toOption.bind fun v =>
      if 0 ≤ v ∧ v < 2 ^ d.valueBits then none
      else some s!"Data value {v} truncated to {v % 2 ^ d.valueBits} for {d.name}"
  | _ => none

/-- The words of an item: as few as have the bits of a value, and from the most significant one on
they hold its number, cut down to the width of values. -/
def IsEncoded (isa : Isa) (d : DataLine) (labels : Labels) (item : DataItem) (words : List Word) :
    Prop :=
  words.length = d.valueBits ⌈/⌉ isa.wordSize ∧ (∀ w ∈ words, w.geometry = isa.geometry) ∧
    ∃ v, item.number isa labels = .ok v ∧
      (ofBits ((isa.wordOrder.arrange words).flatMap Word.bits) : Int) = v % 2 ^ d.valueBits

theorem emod_eq_self_iff {v m : Int} (hm : 0 < m) : v % m = v ↔ 0 ≤ v ∧ v < m := by
  constructor
  · intro h
    rw [← h]
    exact ⟨Int.emod_nonneg v hm.ne', Int.emod_lt_of_pos v hm⟩
  · rintro ⟨hle, hlt⟩
    exact Int.emod_eq_of_lt hle hlt

/-- An item has a value exactly if it stands for a number. -/
theorem itemValue_eq (isa : Isa) (d : DataLine) (labels : Labels) (item : DataItem) :
    d.itemValue isa labels item = (item.number isa labels).map fun v =>
      ((v % 2 ^ d.valueBits).toNat, (d.warning? labels item).toList) := by
  have hpos : (0 : Int) < 2 ^ d.valueBits := Int.pow_pos (by decide)
  cases item with
  | value e =>
    unfold itemValue DataItem.number warning?
    dsimp only
    cases e.eval labels with
    | error err => rfl
    | ok v =>
      rw [ok_bind]
      have hrange := emod_eq_self_iff (v := v) hpos
      by_cases hcut : v % 2 ^ d.valueBits = v
      · simp [Except.map, Except.toOption, hcut, hrange.mp hcut]
      · simp [Except.map, Except.toOption, hcut, hrange.not.mp hcut]
  | char code =>
    unfold itemValue DataItem.number warning?
    simp [Except.map]
    norm_cast
  | terminator => rfl

theorem number_of_itemsWords {items : List DataItem} {result : List Word × List String}
    (h : itemsWords isa d labels line items = .ok result) :
    ∀ item ∈ items, ∃ v, item.number isa labels = .ok v := by
  induction items generalizing result with
  | nil => simp
  | cons item items ih =>
    rw [itemsWords, itemValue_eq] at h
    obtain ⟨value, hvalue, h⟩ := bind_eq_ok.mp h
    obtain ⟨words, -, h⟩ := bind_eq_ok.mp h
    obtain ⟨rest, hrest, -⟩ := bind_eq_ok.mp h
    obtain ⟨v, hv, -⟩ := map_eq_ok.mp (Error.liftAt_eq_ok.mp hvalue)
    exact List.forall_mem_cons.mpr ⟨⟨v, hv⟩, ih hrest⟩

/-- **The words of items.** If all items stand for numbers, all of them have words, one item after
the other. -/
theorem exists_itemsWords (line : SourceLine) (hsize : isa.wordSize ≤ 128) (hpos : 0 < d.valueBits)
    (hbits : d.valueBits ≤ 64) {items : List DataItem}
    (hitems : ∀ item ∈ items, ∃ v, item.number isa labels = .ok v) :
    ∃ groups, itemsWords isa d labels line items =
      .ok (groups.flatten, items.filterMap (d.warning? labels)) ∧
      List.Forall₂ (d.IsEncoded isa labels) items groups := by
  induction items with
  | nil => exact ⟨[], rfl, .nil⟩
  | cons item items ih =>
    obtain ⟨⟨v, hv⟩, hitems⟩ := List.forall_mem_cons.mp hitems
    obtain ⟨groups, hrest, hgroups⟩ := ih hitems
    have hnonneg : 0 ≤ v % 2 ^ d.valueBits := Int.emod_nonneg v (Int.pow_pos (by decide)).ne'
    have hlt : v % 2 ^ d.valueBits < 2 ^ d.valueBits :=
      Int.emod_lt_of_pos v (Int.pow_pos (by decide))
    have hvalue : (v % 2 ^ d.valueBits).toNat < 2 ^ d.valueBits := by
      rw [Int.toNat_lt hnonneg]
      exact_mod_cast hlt
    obtain ⟨words, hwords, hlength, hgeometry, hread⟩ := exists_valueWords hsize hpos hbits hvalue
    refine ⟨words :: groups, ?_, .cons ⟨hlength, hgeometry, v, hv, ?_⟩ hgroups⟩
    · have hitem : d.itemValue isa labels item =
          .ok ((v % 2 ^ d.valueBits).toNat, (d.warning? labels item).toList) := by
        rw [itemValue_eq, hv]
        rfl
      rw [itemsWords]
      refine bind_eq_ok.mpr ⟨_, Error.liftAt_eq_ok.mpr hitem,
        bind_eq_ok.mpr ⟨_, Error.liftAt_eq_ok.mpr hwords, bind_eq_ok.mpr ⟨_, hrest, ?_⟩⟩⟩
      rw [List.flatten_cons, List.filterMap_cons]
      cases d.warning? labels item <;> rfl
    · rw [hread, Int.toNat_of_nonneg hnonneg]

/-! ## Packed texts -/

end DataLine

/-- The bytes of a word, most significant first. -/
def Word.bytes (w : Word) : List Nat :=
  let count := w.geometry.size / 8
  (List.range count).map fun i => w.value / 256 ^ (count - 1 - i) % 256

namespace DataLine

variable {isa : Isa} {d : DataLine} {labels : Labels} {line : SourceLine} {item : DataItem}
  {bytes : List Nat}

theorem joinBytes_concat (bytes : List Nat) (b : Nat) :
    joinBytes (bytes ++ [b]) = joinBytes bytes * 256 + b := by
  simp [joinBytes]

theorem joinBytes_lt (h : ∀ b ∈ bytes, b < 256) : joinBytes bytes < 256 ^ bytes.length := by
  induction bytes using List.reverseRecOn with
  | nil => decide
  | append_singleton bytes b ih =>
    simp only [List.forall_mem_append, List.forall_mem_singleton] at h
    have := ih h.1
    rw [joinBytes_concat, List.length_append, List.length_singleton, Nat.pow_succ]
    omega

/-- Bytes that are put together can be read again. -/
theorem range_map_joinBytes (h : ∀ b ∈ bytes, b < 256) :
    ((List.range bytes.length).map fun i => joinBytes bytes / 256 ^ (bytes.length - 1 - i) % 256) =
      bytes := by
  induction bytes using List.reverseRecOn with
  | nil => rfl
  | append_singleton bytes b ih =>
    simp only [List.forall_mem_append, List.forall_mem_singleton] at h
    obtain ⟨hbytes, hb⟩ := h
    rw [joinBytes_concat, List.length_append, List.length_singleton, List.range_succ,
      List.map_append, List.map_singleton]
    congr 1
    · refine Eq.trans (List.map_congr_left fun i hi => ?_) (ih hbytes)
      have hpow : bytes.length + 1 - 1 - i = (bytes.length - 1 - i) + 1 := by
        have := List.mem_range.mp hi
        omega
      rw [hpow, Nat.pow_succ', ← Nat.div_div_eq_div_mul]
      congr 2
      omega
    · simp
      omega

/-- Words that hold whole bytes, and a byte to fill them up. -/
structure Packs (isa : Isa) : Prop where
  size_le : isa.wordSize ≤ 128
  size_eq : isa.wordSize = 8 * charsPerWord isa
  fill_lt : isa.packingFill.toNat < 256

theorem packs_of_ofSpec {spec : IsaSpec} {other : String} (h : Isa.ofSpec spec other = .ok isa)
    (hsize : isa.wordSize ≤ 128) (hpacking : isa.packing = true) : Packs isa := by
  obtain ⟨hbytes, hnonneg, hle⟩ := Isa.packing_of_ofSpec h
  obtain ⟨hmin, hdvd⟩ := hbytes hpacking
  refine ⟨hsize, ?_, by omega⟩
  unfold charsPerWord
  omega

/-- The word of a few bytes has these bytes, and then those that fill it up. -/
theorem exists_packWord (hpacks : Packs isa) {chunk : List Nat} (hchunk : ∀ b ∈ chunk, b < 256)
    (hlength : chunk.length ≤ charsPerWord isa) :
    ∃ w, packWord isa chunk = .ok w ∧ w.geometry = isa.geometry ∧
      isa.wordOrder.arrange w.bytes =
        chunk ++ List.replicate (charsPerWord isa - chunk.length) isa.packingFill.toNat := by
  obtain ⟨hsize, hbytes, hfill⟩ := hpacks
  unfold packWord
  generalize hfull : chunk ++
    List.replicate (charsPerWord isa - chunk.length) isa.packingFill.toNat = full
  have hcount : (isa.wordOrder.arrange full).length = charsPerWord isa := by
    rw [Endian.length_arrange, ← hfull, List.length_append, List.length_replicate]
    omega
  have hall : ∀ b ∈ isa.wordOrder.arrange full, b < 256 := by
    intro b hb
    rw [Endian.mem_arrange, ← hfull, List.mem_append] at hb
    rcases hb with hb | hb
    · exact hchunk b hb
    · rwa [List.eq_of_mem_replicate hb]
  have hlt := joinBytes_lt hall
  rw [hcount, show 256 = 2 ^ 8 from rfl, ← Nat.pow_mul, ← hbytes] at hlt
  obtain ⟨w, hw⟩ := Word.make_of_valid (valid_geometry hsize) hlt
  obtain ⟨hvalue, hgeometry⟩ := Word.make_eq_ok hw
  refine ⟨w, hw, hgeometry, ?_⟩
  have hcount' : isa.geometry.size / 8 = (isa.wordOrder.arrange full).length := by
    have : isa.geometry.size = 8 * charsPerWord isa := hbytes
    omega
  rw [Word.bytes, hgeometry, hvalue, hcount', range_map_joinBytes hall, Endian.arrange_arrange]

/-- **The words of packed bytes.** Read in the order of words they give the bytes, and at their end
those that fill up the last word. -/
theorem exists_packBytes (hpacks : Packs isa) (hbytes : ∀ b ∈ bytes, b < 256) :
    ∃ words, packBytes isa bytes = .ok words ∧ (∀ w ∈ words, w.geometry = isa.geometry) ∧
      ∃ fill < charsPerWord isa, (words.flatMap fun w => isa.wordOrder.arrange w.bytes) =
        bytes ++ List.replicate fill isa.packingFill.toNat := by
  have hpos := charsPerWord_pos isa
  fun_induction packBytes isa bytes with
  | case1 bytes hempty =>
    refine ⟨[], rfl, by simp, 0, hpos, ?_⟩
    rw [List.isEmpty_iff.mp hempty]
    rfl
  | case2 bytes hempty ih =>
    have hchunk : ∀ b ∈ bytes.take (charsPerWord isa), b < 256 :=
      fun b hb => hbytes b (List.mem_of_mem_take hb)
    obtain ⟨w, hw, hgeometry, hword⟩ := exists_packWord hpacks hchunk (List.length_take_le _ _)
    obtain ⟨words, hwords, hall, fill, hfill, hrest⟩ :=
      ih fun b hb => hbytes b (List.mem_of_mem_drop hb)
    refine ⟨w :: words, by rw [hw, ok_bind, hwords]; rfl,
      List.forall_mem_cons.mpr ⟨hgeometry, hall⟩, ?_⟩
    rw [List.flatMap_cons, hword]
    rcases Nat.le_total (charsPerWord isa) bytes.length with hle | hle
    · refine ⟨fill, hfill, ?_⟩
      rw [hrest, List.length_take, Nat.min_eq_left hle, Nat.sub_self, List.replicate_zero,
        List.append_nil, ← List.append_assoc, List.take_append_drop]
    · -- The last word, which the bytes need not fill.
      have hnone : packBytes isa (bytes.drop (charsPerWord isa)) = .ok [] := by
        rw [List.drop_eq_nil_of_le hle, packBytes]
        rfl
      rw [hnone] at hwords
      cases hwords
      have hlength := List.length_pos_iff.mpr fun h => hempty (List.isEmpty_iff.mpr h)
      refine ⟨charsPerWord isa - bytes.length, by omega, ?_⟩
      rw [List.flatMap_nil, List.append_nil, List.take_of_length_le hle]

/-- The byte of an item that is no expression. -/
theorem packedByte_eq (labels : Labels) (h : ∀ e, item ≠ .value e) :
    packedByte isa item < 256 ∧ item.IsByte isa labels (packedByte isa item) := by
  cases item with
  | value e => exact absurd rfl (h e)
  | char code => exact ⟨Nat.mod_lt _ (by decide), code, rfl, by simp [packedByte]⟩
  | terminator =>
    have hbyte : packedByte isa .terminator = (isa.terminator % 256).toNat := rfl
    rw [hbyte]
    exact ⟨by omega, isa.terminator, rfl, by omega⟩

theorem words_of_packed (hpacked : d.packed = true) {packed : List Word}
    (h : packBytes isa (d.items.map (packedByte isa)) = .ok packed) :
    d.words isa labels line = .ok (packed, []) := by
  rw [words, if_pos hpacked, Error.lift_eq_ok.mpr h]
  rfl

theorem words_of_not_packed (hpacked : d.packed = false) :
    d.words isa labels line = itemsWords isa d labels line d.items := by
  rw [words, if_neg (by simp [hpacked])]

end DataLine

/-- **Data statements encode every item, and warn where a value is cut.** Let a data statement be
read for an instruction set that a configuration defines, with words of at most 128 bits. It has
words exactly if all expressions in it have values. If it is not packed, each item has words of its
own, which hold its number modulo the power of the width of values, and there is one warning for
each expression whose value is negative or not below that power. If it is packed, the bytes of its
words are the numbers of the items modulo 256, and less than a word of fill bytes. -/
theorem data_words_encode_items {spec : IsaSpec} {other : String} {isa : Isa} {d : DataLine}
    (hisa : Isa.ofSpec spec other = .ok isa) (hsize : isa.wordSize ≤ 128) (hd : d.IsRead isa)
    (labels : Labels) (line : SourceLine) :
    ((∃ result, d.words isa labels line = .ok result) ↔ ∀ item ∈ d.items, ∃ v,
      item.number isa labels = .ok v) ∧
    ∀ words warnings, d.words isa labels line = .ok (words, warnings) →
      (d.packed = false →
        (∃ groups, words = groups.flatten ∧ List.Forall₂ (d.IsEncoded isa labels) d.items groups) ∧
        warnings = d.items.filterMap (d.warning? labels)) ∧
      (d.packed = true →
        (∀ w ∈ words, w.geometry = isa.geometry) ∧ warnings = [] ∧
        ∃ bytes, List.Forall₂ (DataItem.IsByte isa labels) d.items bytes ∧
          ∃ fill < isa.wordSize / 8, (words.flatMap fun w => isa.wordOrder.arrange w.bytes) =
            bytes ++ List.replicate fill isa.packingFill.toNat) := by
  obtain ⟨hpos, hbits, hshape⟩ := hd.shape
  cases hpacked : d.packed with
  | false =>
    rw [DataLine.words_of_not_packed hpacked]
    refine ⟨⟨fun ⟨result, h⟩ => DataLine.number_of_itemsWords h, fun hitems => ?_⟩,
      fun words warnings h =>
      ⟨fun _ => ?_, fun h => (by cases h)⟩⟩
    · obtain ⟨groups, h, -⟩ := DataLine.exists_itemsWords line hsize hpos hbits hitems
      exact ⟨_, h⟩
    · obtain ⟨groups, hgroups, hencoded⟩ :=
        DataLine.exists_itemsWords line hsize hpos hbits (DataLine.number_of_itemsWords h)
      rw [h] at hgroups
      cases hgroups
      exact ⟨⟨groups, rfl, hencoded⟩, rfl⟩
  | true =>
    obtain ⟨hpacking, hitems⟩ := hshape hpacked
    have hpacks := DataLine.packs_of_ofSpec hisa hsize hpacking
    have hbytes : ∀ b ∈ d.items.map (DataLine.packedByte isa), b < 256 := by
      intro b hb
      obtain ⟨item, hitem, rfl⟩ := List.mem_map.mp hb
      exact (DataLine.packedByte_eq labels (hitems item hitem)).1
    obtain ⟨packed, hpack, hgeometry, fill, hfill, hread⟩ := DataLine.exists_packBytes hpacks hbytes
    have hwords : d.words isa labels line = .ok (packed, []) :=
      DataLine.words_of_packed hpacked hpack
    rw [hwords]
    refine ⟨⟨fun _ item hitem => ?_, fun _ => ⟨_, rfl⟩⟩, ?_⟩
    · obtain ⟨-, v, hv, -⟩ := DataLine.packedByte_eq labels (hitems item hitem)
      exact ⟨v, hv⟩
    · rintro words warnings ⟨⟩
      refine ⟨fun h => (by cases h), fun _ => ⟨hgeometry, rfl, _, ?_, fill, ?_, hread⟩⟩
      · rw [List.forall₂_map_right_iff]
        exact List.forall₂_same.mpr fun item hitem =>
          (DataLine.packedByte_eq labels (hitems item hitem)).2
      · rw [hpacks.size_eq]
        omega

/-- A configuration that says how words are made, and has no instructions. -/
def IsaSpec.ofWords (wordSize : Nat) (wordOrder : Endian) (packing : Bool) : IsaSpec where
  description := none
  general := some
    { addressSize := 16, wordSize, segmentSize := none, wordOrder, segmentOrder := .big,
      registers := [], origin := 0,
      pageSize := 1, terminator := 0, packing, packingFill := 0xee, minVersion := some "0.1.0",
      embeddedStrings := false, identifier := none }
  predefined := {}
  operandSets := []
  instructions := some []
  macros := []

/-- Read a data directive for a configuration, and make its words. -/
def dataWords (spec : IsaSpec) (directive : String) (bytes : Nat) (args : String) :
    Option (Isa × DataLine × List Word × List String) := do
  let isa ← (Isa.ofSpec spec "isa").toOption
  let d ← (DataLine.read isa directive bytes args.toList default).toOption
  let result ← (d.words isa (fun _ => none) default).toOption
  return (isa, d, result)

theorem dataWords_eq_some {spec : IsaSpec} {directive : String} {bytes : Nat} {args : String}
    {isa : Isa} {d : DataLine} {words : List Word} {warnings : List String}
    (h : dataWords spec directive bytes args = some (isa, d, words, warnings)) :
    Isa.ofSpec spec "isa" = .ok isa ∧
      DataLine.read isa directive bytes args.toList default = .ok d ∧
      d.words isa (fun _ => none) default = .ok (words, warnings) := by
  obtain ⟨isa, hisa, h⟩ := Option.bind_eq_some_iff.mp h
  obtain ⟨d, hd, h⟩ := Option.bind_eq_some_iff.mp h
  obtain ⟨result, hresult, h⟩ := Option.bind_eq_some_iff.mp h
  cases h
  exact ⟨toOption_eq_some.mp hisa, toOption_eq_some.mp hd, toOption_eq_some.mp hresult⟩

/-- Values of 16 bits in words of 12 bits, least significant word first, of which two are cut; and
five packed bytes in words of three. -/
theorem data_words_encode_items_narrow_and_packed :
    (∃ isa d words warnings,
      dataWords (IsaSpec.ofWords 12 .little false) "2byte" 2 "$12345, \"x\", -1" =
        some (isa, d, words, warnings) ∧
      words.map Word.value = [0x345, 0x002, 0x78, 0, 0xfff, 0x00f] ∧
      warnings = ["Data value 74565 truncated to 9029 for .2byte",
        "Data value -1 truncated to 65535 for .2byte"] ∧
      ∃ groups, words = groups.flatten ∧
        List.Forall₂ (d.IsEncoded isa fun _ => none) d.items groups) ∧
    ∃ isa d words warnings,
      dataWords (IsaSpec.ofWords 24 .big true) "cstr" 1 "\"abcd\"" =
        some (isa, d, words, warnings) ∧
      words.map Word.value = [0x616263, 0x6400ee] ∧ warnings = [] ∧
      ∃ bytes, List.Forall₂ (DataItem.IsByte isa fun _ => none) d.items bytes ∧
        ∃ fill < isa.wordSize / 8, (words.flatMap fun w => isa.wordOrder.arrange w.bytes) =
          bytes ++ List.replicate fill isa.packingFill.toNat := by
  constructor
  · have hview :
        ((dataWords (IsaSpec.ofWords 12 .little false) "2byte" 2 "$12345, \"x\", -1").map fun r =>
        (r.1.wordSize, r.2.1.packed, r.2.2.1.map Word.value, r.2.2.2)) =
        some (12, false, [0x345, 0x002, 0x78, 0, 0xfff, 0x00f],
          ["Data value 74565 truncated to 9029 for .2byte",
            "Data value -1 truncated to 65535 for .2byte"]) := by
      decide +kernel
    obtain ⟨⟨isa, d, words, warnings⟩, hmade, hview⟩ := Option.map_eq_some_iff.mp hview
    simp only [Prod.mk.injEq] at hview
    obtain ⟨hsize, hpacked, hwords, hwarnings⟩ := hview
    obtain ⟨hisa, hd, h⟩ := dataWords_eq_some hmade
    have hread : d.IsRead isa := .inl ⟨_, _, _, _, rfl, hd⟩
    obtain ⟨hgroups, -⟩ :=
      ((data_words_encode_items hisa (by omega) hread (fun _ => none) default).2
        words warnings h).1 hpacked
    exact ⟨isa, d, words, warnings, hmade, hwords, hwarnings, hgroups⟩
  · have hview : ((dataWords (IsaSpec.ofWords 24 .big true) "cstr" 1 "\"abcd\"").map fun r =>
        (r.1.wordSize, r.2.1.packed, r.2.2.1.map Word.value)) =
          some (24, true, [0x616263, 0x6400ee]) := by
      decide +kernel
    obtain ⟨⟨isa, d, words, warnings⟩, hmade, hview⟩ := Option.map_eq_some_iff.mp hview
    simp only [Prod.mk.injEq] at hview
    obtain ⟨hsize, hpacked, hwords⟩ := hview
    obtain ⟨hisa, hd, h⟩ := dataWords_eq_some hmade
    have hread : d.IsRead isa := .inl ⟨_, _, _, _, rfl, hd⟩
    obtain ⟨-, hnone, hbytes⟩ :=
      ((data_words_encode_items hisa (by omega) hread (fun _ => none) default).2
        words warnings h).2 hpacked
    exact ⟨isa, d, words, warnings, hmade, hwords, hnone, hbytes⟩

end Retarget
