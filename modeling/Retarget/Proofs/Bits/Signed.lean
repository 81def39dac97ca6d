import Mathlib.Data.Nat.Size
import Retarget.Proofs.Bits.Packing

/-!
# Signed readings

A pattern can be read as an unsigned number or in two's complement, and slices accept the numbers of
both readings.

* `ofSigned`: the number of a pattern in two's complement; `ofSigned_twosComplement_eq_iff`: which
  numbers are read back from their own two's complement;
* `Slice.raw_of_make`: the pattern of a slice; `Slice.make_widest`: there is no slice of 127 bits;
* `Wide.lt_of_need_le`, `Wide.le_of_need_le`: the bits that a number needs are enough to read it
  back, and from this the words of a wide value give the value.
-/

namespace Retarget

/-! ## Patterns -/

/-- The number that a pattern stands for in two's complement: the first bit, the sign, counts
negatively. -/
def ofSigned : List Bool → Int
  | [] => 0
  | sign :: rest => ofBits rest - if sign then 2 ^ rest.length else 0

/-- Both readings agree on patterns without sign; with one they differ by a power. -/
theorem ofSigned_eq {bits : List Bool} (h : bits ≠ []) :
    ofSigned bits =
      if ofBits bits <
        2 ^ (bits.length - 1) then (ofBits bits : Int) else ofBits bits - 2 ^ bits.length := by
  cases bits with
  | nil => exact absurd rfl h
  | cons sign rest =>
    have hlt := ofBits_lt rest
    have hvalue : ofBits (sign :: rest) = sign.toNat * 2 ^ rest.length + ofBits rest := by
      have happend := ofBits_append_bitsOf [sign] (ofBits rest) rest.length
      rw [bitsOf_ofBits, Nat.mod_eq_of_lt hlt] at happend
      simpa [ofBits] using happend
    rw [ofSigned, hvalue, List.length_cons, Nat.add_sub_cancel, pow_succ]
    cases sign
    · simp [hlt]
    · simp
      ring

@[simp] theorem length_twosComplement (v : Int) (width : Nat) :
    (twosComplement v width).length = width := by
  simp [twosComplement]

theorem ofBits_twosComplement (v : Int) (width : Nat) :
    (ofBits (twosComplement v width) : Int) = v % 2 ^ width := by
  have hpos : (0 : Int) < 2 ^ width := Int.pow_pos (by decide)
  have hnonneg := Int.emod_nonneg v (Int.ne_of_gt hpos)
  have hlt := Int.emod_lt_of_pos v hpos
  rw [twosComplement_eq_bitsOf, ofBits_bitsOf, Nat.mod_eq_of_lt, Int.toNat_of_nonneg hnonneg]
  rw [Int.toNat_lt hnonneg]
  exact_mod_cast hlt

/-- Among the numbers with the same pattern, the one around zero is read back. -/
theorem ofSigned_twosComplement (v : Int) (width : Nat) :
    ofSigned (twosComplement v width) = v.bmod (2 ^ width) := by
  cases width with
  | zero => simp [twosComplement, ofSigned, Int.bmod_def]
  | succ width =>
    have hvalue := ofBits_twosComplement v (width + 1)
    have hpow : (2 : Int) ^ (width + 1) = 2 * 2 ^ width := by ring
    have hcast : ofBits (twosComplement v (width + 1)) < 2 ^ width ↔
        v % 2 ^ (width + 1) < 2 ^ width := by
      rw [← hvalue]
      exact_mod_cast Iff.rfl
    rw [ofSigned_eq (by simp [twosComplement]), length_twosComplement, Nat.add_sub_cancel,
      Int.bmod_def, hvalue]
    push_cast
    simp only [hcast, hpow]
    congr 2
    omega

/-- **The numbers that are read back from their two's complement.** -/
theorem ofSigned_twosComplement_eq_iff {v : Int} {width : Nat} (hpos : 0 < width) :
    ofSigned (twosComplement v width) = v ↔ -2 ^ (width - 1) ≤ v ∧ v < 2 ^ (width - 1) := by
  obtain ⟨w, rfl⟩ := Nat.exists_eq_succ_of_ne_zero hpos.ne'
  have hpow : ((2 ^ (w + 1) : Nat) : Int) = 2 * 2 ^ w := by push_cast; ring
  have hle := Int.le_bmod (x := v) (Nat.two_pow_pos (w + 1))
  have hlt := Int.bmod_lt (x := v) (Nat.two_pow_pos (w + 1))
  rw [ofSigned_twosComplement, Nat.succ_eq_add_one, Nat.add_sub_cancel]
  rw [hpow] at hle hlt
  constructor
  · intro h
    omega
  · rintro ⟨hlow, hhigh⟩
    apply Int.bmod_eq_of_le <;> omega

/-- An unsigned number with its highest bit set is read as a negative one. -/
theorem ofSigned_twosComplement_of_le {v : Int} {width : Nat} (hpos : 0 < width)
    (hle : 2 ^ (width - 1) ≤ v) (hlt : v < 2 ^ width) :
    ofSigned (twosComplement v width) = v - 2 ^ width := by
  have hnonneg : 0 ≤ v := le_trans (Int.pow_nonneg (by decide)) hle
  have hvalue := ofBits_twosComplement v width
  rw [Int.emod_eq_of_lt hnonneg hlt] at hvalue
  have hne : twosComplement v width ≠ [] := List.ne_nil_of_length_pos (by simpa using hpos)
  rw [ofSigned_eq hne, length_twosComplement, hvalue, if_neg]
  intro h
  have hcast : (ofBits (twosComplement v width) : Int) < 2 ^ (width - 1) := by exact_mod_cast h
  omega

/-! ## Slices -/

theorem Number.fits_iff {v : Int} : fits v = true ↔ -2 ^ 127 ≤ v ∧ v < 2 ^ 127 := by
  rw [fits, Bool.and_eq_true, decide_eq_true_iff, decide_eq_true_iff, least, greatest]
  omega

namespace Slice

theorem raw_of_make {value : Int} {size : Nat} {s : Slice} (h : make value size = .ok s) :
    (s.raw : Int) = value % 2 ^ size ∧ bitsOf s.raw size = twosComplement value size := by
  obtain ⟨rfl, rfl⟩ := make_eq_ok h
  exact ⟨s.raw_eq, s.bits_eq_twosComplement⟩

/-- The upper limit of 127 bits wraps around, and is then below every value. -/
theorem make_widest {value : Int} (hfits : Number.fits value = true) :
    make value 127 = .error (.sliceOverflow value 127) := by
  have hwrap : Number.wrap (2 ^ 127) = -2 ^ 127 := by decide
  unfold make
  rw [dif_neg (by decide), dif_neg (by decide), dif_pos]
  rw [hwrap]
  exact .inr (Number.fits_iff.mp hfits).1

end Slice

/-- **The values of a slice and its pattern.** A slice of 1 to 126 bits holds the numbers of both
readings and nothing else, and one of 127 bits holds nothing. Its pattern is the remainder of the
value, and the signed reading of the pattern is the value exactly if the value is below the sign. -/
theorem slice_range_and_pattern (value : Int) (size : Nat) (hfits : Number.fits value = true)
    (hpos : 1 ≤ size) (hsize : size ≤ 127) :
    ((∃ s, Slice.make value size = .ok s) ↔ size ≤ 126 ∧ -2 ^ (size - 1) ≤ value ∧
      value < 2 ^ size) ∧
    ∀ s, Slice.make value size = .ok s →
      (s.raw : Int) = value % 2 ^ size ∧ s.raw < 2 ^ size ∧
      (ofSigned (bitsOf s.raw size) = value ↔ value < 2 ^ (size - 1)) := by
  by_cases hle : size ≤ 126
  · have hrange : (∃ s, Slice.make value size = .ok s) ↔ _ := Slice.exists_make_iff hpos hle
    refine ⟨hrange.trans (and_iff_right hle).symm, fun s hs => ?_⟩
    obtain ⟨hraw, hbits⟩ := Slice.raw_of_make hs
    refine ⟨hraw, (Slice.make_eq_ok hs).2 ▸ s.raw_lt, ?_⟩
    rw [hbits, ofSigned_twosComplement_eq_iff hpos]
    exact and_iff_right (hrange.mp ⟨s, hs⟩).1
  · obtain rfl : size = 127 := by omega
    simp [Slice.make_widest hfits]

/-- The least and the greatest value of 126 bits. With a sign, the pattern of the greatest one is
read as another number. -/
theorem slice_range_and_pattern_widest :
    let least : Int := -2 ^ 125
    let greatest : Int := 2 ^ 126 - 1
    (Number.fits least = true ∧ Number.fits greatest = true) ∧
    (∃ s, Slice.make least 126 = .ok s ∧ (s.raw : Int) = 2 ^ 125 ∧
      ofSigned (bitsOf s.raw 126) = least) ∧
    ∃ s, Slice.make greatest 126 = .ok s ∧ (s.raw : Int) = greatest ∧
      ofSigned (bitsOf s.raw 126) ≠ greatest := by
  intro least greatest
  have hleast : Number.fits least = true := by decide
  have hgreatest : Number.fits greatest = true := by decide
  obtain ⟨hrange, hpattern⟩ := slice_range_and_pattern least 126 hleast (by decide) (by decide)
  obtain ⟨s, hs⟩ := hrange.mpr (by decide)
  obtain ⟨hraw, -, hread⟩ := hpattern s hs
  obtain ⟨hrange', hpattern'⟩ :=
    slice_range_and_pattern greatest 126 hgreatest (by decide) (by decide)
  obtain ⟨s', hs'⟩ := hrange'.mpr (by decide)
  obtain ⟨hraw', -, hread'⟩ := hpattern' s' hs'
  have hsign : ¬ greatest < 2 ^ (126 - 1) := by decide
  exact ⟨⟨hleast, hgreatest⟩, ⟨s, hs, hraw, hread.mpr (by decide)⟩, s', hs', hraw',
    fun h => hsign (hread'.mp h)⟩

/-- Zero does not fit into 127 bits. -/
theorem widest_slice_holds_nothing :
    ¬ ∀ (value : Int) (size : Nat), Number.fits value = true → 1 ≤ size → size ≤ 127 →
      ((∃ s, Slice.make value size = .ok s) ↔ -2 ^ (size - 1) ≤ value ∧ value < 2 ^ size) := by
  intro h
  obtain ⟨s, hs⟩ := (h 0 127 (by decide) (by decide) (by decide)).mpr (by decide)
  have hnone : Slice.make 0 127 = .error (.sliceOverflow 0 127) := by decide
  rw [hnone] at hs
  cases hs

/-! ## Wide values -/

theorem Number.bitLength_eq_size (v : Int) : bitLength v = v.natAbs.size := by
  unfold bitLength
  split
  · rename_i h
    simp [h]
  · rename_i h
    have habs : v.natAbs ≠ 0 := by omega
    exact Nat.le_antisymm (Nat.lt_size.mpr (Nat.log2_self_le habs))
      (Nat.size_le.mpr Nat.lt_log2_self)

theorem Number.natAbs_lt_of_bitLength_le {v : Int} {width : Nat} (h : bitLength v ≤ width) :
    (v.natAbs : Int) < 2 ^ width := by
  rw [bitLength_eq_size, Nat.size_le] at h
  exact_mod_cast h

namespace Wide

variable {v : Int} {width : Nat}

/-- The bits that a number needs hold it unsigned. -/
theorem lt_of_need_le (h : need v ≤ width) (hv : 0 ≤ v) : v < 2 ^ width := by
  unfold need at h
  have hlt : (v.natAbs : Int) < 2 ^ width := Number.natAbs_lt_of_bitLength_le (by omega)
  omega

/-- The bits that a negative number needs hold it with its sign. -/
theorem le_of_need_le (h : need v ≤ width) (hv : v < 0) : -2 ^ (width - 1) ≤ v := by
  rw [need, if_pos hv] at h
  have hlt : (v.natAbs : Int) < 2 ^ (width - 1) := Number.natAbs_lt_of_bitLength_le (by omega)
  omega

theorem need_pos (v : Int) : 0 < need v := Nat.lt_of_lt_of_le Nat.one_pos (Nat.le_max_right _ _)

/-- A value is spread over as few words as hold the bits that it needs. -/
theorem ofValue_eq {g : Geometry} (hpos : 0 < g.size) (v : Int) (order : Endian) :
    ofValue v g order = ofCount v (need v ⌈/⌉ g.size) g order := by
  rw [ofValue, Nat.max_eq_left hpos, ← Nat.ceilDiv_eq_add_pred_div]

end Wide

/-- **The words of a wide value give the value.** Let `need` be the bits of the magnitude, one more
for a minus sign, and at least one. A value is spread over the fewest words that have as many bits,
if these have at most 128 bits together; side by side, the words are the value, in two's complement
if it is negative. Over any number of words that have at most 128 bits together, they are the
remainder of the value. In little order the words are those of the big order in reverse. -/
theorem wide_words_give_value (g : Geometry) (order : Endian) (hpos : 1 ≤ g.size)
    (hle : g.size ≤ 128) (v : Int) :
    let need := max (v.natAbs.size + if v < 0 then 1 else 0) 1
    let n := need ⌈/⌉ g.size
    ((∃ w, Wide.ofValue v g order = .ok w) ↔ n * g.size ≤ 128) ∧
    (∀ w, Wide.ofValue v g order = .ok w → Sized g.size n w.words ∧
      (0 ≤ v → (ofBits (w.words.flatMap Word.bits) : Int) = v) ∧
      (v < 0 → ofSigned (w.words.flatMap Word.bits) = v)) ∧
    (∀ count, count * g.size ≤ 128 → ∃ w, Wide.ofCount v count g order = .ok w ∧
      Sized g.size count w.words ∧
      (ofBits (w.words.flatMap Word.bits) : Int) = v % 2 ^ (count * g.size)) ∧
    ∀ w : Wide, w.arranged .big = w.words ∧ w.arranged .little = (w.arranged .big).reverse := by
  have hneed : max (v.natAbs.size + if v < 0 then 1 else 0) 1 = Wide.need v := by
    rw [Wide.need, Number.bitLength_eq_size]
  rw [hneed, Wide.ofValue_eq hpos]
  refine ⟨Wide.exists_ofCount_iff hpos hle v _ order, fun w hw => ?_, fun count hcount => ?_,
    fun w => ⟨rfl, rfl⟩⟩
  · have hwide := le_wholeBits hpos (Wide.need v)
    refine ⟨Wide.sized_of_ofCount hw, fun hv => ?_, fun hv => ?_⟩
    · rw [(Wide.ofCount_bits hw).2.2, ofBits_twosComplement]
      exact Int.emod_eq_of_lt hv (Wide.lt_of_need_le hwide hv)
    · have hlow := Wide.le_of_need_le hwide hv
      have hhigh : (0 : Int) < 2 ^ (wholeBits g.size (Wide.need v) - 1) := Int.pow_pos (by decide)
      rw [(Wide.ofCount_bits hw).2.2]
      exact (ofSigned_twosComplement_eq_iff (Nat.lt_of_lt_of_le (Wide.need_pos v) hwide)).mpr ⟨hlow,
        by omega⟩
  · obtain ⟨w, hw⟩ := (Wide.exists_ofCount_iff hpos hle v count order).mpr hcount
    refine ⟨w, hw, Wide.sized_of_ofCount hw, ?_⟩
    rw [(Wide.ofCount_bits hw).2.2, ofBits_twosComplement]

/-- The value -2048 needs 13 bits, and so two words of 12 bits. Segments of 8 bits do not divide
such words, and one word alone holds 2048. -/
theorem wide_words_give_value_twelve :
    let g : Geometry := { size := 12, segment := 8, order := .big }
    (1 ≤ g.size ∧ g.size ≤ 128) ∧
    (∃ w, Wide.ofValue (-2048) g .little = .ok w ∧ w.words.map Word.value = [0xfff, 0x800] ∧
      ofSigned (w.words.flatMap Word.bits) = -2048 ∧
        w.arranged .little = (w.arranged .big).reverse) ∧
    ∃ w, Wide.ofCount (-2048) 1 g .little = .ok w ∧ ofBits (w.words.flatMap Word.bits) = 2048 := by
  intro g
  obtain ⟨-, hvalue, hcount, horder⟩ :=
    wide_words_give_value g .little (by decide) (by decide) (-2048)
  have hwords : (Wide.ofValue (-2048) g .little).map (·.words.map Word.value) =
      .ok [0xfff, 0x800] := by decide +kernel
  obtain ⟨w, hw, hwords⟩ := map_eq_ok.mp hwords
  obtain ⟨-, -, hread⟩ := hvalue w hw
  obtain ⟨w', hw', -, hrest⟩ := hcount 1 (by decide)
  have hmod : (-2048 : Int) % 2 ^ (1 * g.size) = (2048 : Nat) := by decide
  rw [hmod, Int.ofNat_inj] at hrest
  exact ⟨⟨by decide, by decide⟩, ⟨w, hw, hwords, hread (by decide), (horder w).2⟩, w', hw', hrest⟩

end Retarget
