import Mathlib.Data.List.Induction
import Mathlib.Data.Nat.Bitwise
import Mathlib.Tactic.Ring
import Retarget.Bits.Word
import Retarget.Proofs.Result

/-!
# Bit patterns

Numbers, slices and words as lists of bits, most significant first.

* `bitsOf_append`, `bitsOf_add`: numbers put side by side are patterns put one after the other, and
  a pattern is cut into a high and a low part;
* `ofBits`: the number that a pattern stands for, with `ofBits_bitsOf` and `bitsOf_ofBits`;
* `bitsOf_injective`: numbers below `2 ^ width` have different patterns, so that the words of one
  geometry are told apart by their bits (`Word.eq_of_bits_eq`);
* `Slice.raw_eq`: the pattern of a slice is the remainder of its value, whatever the sign;
  `Slice.bits_eq_twosComplement`: it is the two's complement of the value;
  `Slice.exists_make_iff`: which values there are;
* `Word.make_eq_ok`, `Word.make_of_valid`: which words there are.
-/

namespace Retarget

/-- The low `width` bits of a number, most significant first. -/
def bitsOf (n : Nat) : Nat → List Bool
  | 0 => []
  | width + 1 => n.testBit width :: bitsOf n width

/-- The two's complement of a number in `width` bits, most significant first. -/
def twosComplement (v : Int) (width : Nat) : List Bool :=
  (List.range width).map (BitVec.ofInt width v).getMsbD

@[simp] theorem length_bitsOf (n width : Nat) : (bitsOf n width).length = width := by
  induction width with
  | zero => rfl
  | succ width ih => rw [bitsOf, List.length_cons, ih]

/-- A pattern depends on its bits only. -/
theorem bitsOf_congr {m n width : Nat} (h : ∀ k < width, m.testBit k = n.testBit k) :
    bitsOf m width = bitsOf n width := by
  induction width with
  | zero => rfl
  | succ width ih =>
    rw [bitsOf, bitsOf, h width (by omega), ih fun k hk => h k (by omega)]

theorem bitsOf_mod (n width : Nat) : bitsOf (n % 2 ^ width) width = bitsOf n width :=
  bitsOf_congr fun k hk => by simp [Nat.testBit_mod_two_pow, hk]

theorem bitsOf_zero (width : Nat) : bitsOf 0 width = List.replicate width false := by
  induction width with
  | zero => rfl
  | succ width ih => rw [bitsOf, ih, Nat.zero_testBit, List.replicate_succ]

/-- A pattern is cut into its high and its low part. -/
theorem bitsOf_add (n high low : Nat) :
    bitsOf n (high + low) = bitsOf (n / 2 ^ low) high ++ bitsOf n low := by
  induction high with
  | zero => simp [bitsOf]
  | succ high ih =>
    rw [Nat.succ_add, bitsOf, bitsOf, ih, Nat.testBit_div_two_pow, List.cons_append]

/-- Numbers side by side. -/
theorem bitsOf_append {a b high low : Nat} (hb : b < 2 ^ low) :
    bitsOf (a * 2 ^ low + b) (high + low) = bitsOf a high ++ bitsOf b low := by
  have hdiv : (a * 2 ^ low + b) / 2 ^ low = a := by
    rw [Nat.mul_comm, Nat.mul_add_div (Nat.two_pow_pos low), Nat.div_eq_of_lt hb, Nat.add_zero]
  have hmod : (a * 2 ^ low + b) % 2 ^ low = b := by
    rw [Nat.mul_comm, Nat.mul_add_mod, Nat.mod_eq_of_lt hb]
  rw [bitsOf_add, hdiv, ← bitsOf_mod (a * 2 ^ low + b), hmod]

theorem bitsOf_eq_map (n width : Nat) :
    bitsOf n width = (List.range width).map fun k => n.testBit (width - 1 - k) := by
  induction width with
  | zero => rfl
  | succ width ih =>
    rw [bitsOf, ih, List.range_succ_eq_map, List.map_cons, List.map_map]
    congr 1
    apply List.map_congr_left
    intro k _
    rw [Function.comp_apply]
    congr 1
    omega

/-- Numbers below `2 ^ width` are told apart by their patterns. -/
theorem bitsOf_injective {m n width : Nat} (hm : m < 2 ^ width) (hn : n < 2 ^ width)
    (h : bitsOf m width = bitsOf n width) : m = n := by
  induction width generalizing m n with
  | zero =>
    rw [Nat.pow_zero] at hm hn
    omega
  | succ width ih =>
    rw [bitsOf, bitsOf, List.cons.injEq, ← bitsOf_mod m, ← bitsOf_mod n] at h
    have hlow := ih (Nat.mod_lt _ (Nat.two_pow_pos _)) (Nat.mod_lt _ (Nat.two_pow_pos _)) h.2
    apply Nat.eq_of_testBit_eq
    intro k
    rcases Nat.lt_trichotomy k width with hk | rfl | hk
    · have := congrArg (Nat.testBit · k) hlow
      simpa [Nat.testBit_mod_two_pow, hk] using this
    · exact h.1
    · have hpow : 2 ^ (width + 1) ≤ 2 ^ k := Nat.pow_le_pow_right (by decide) hk
      rw [Nat.testBit_lt_two_pow (Nat.lt_of_lt_of_le hm hpow),
        Nat.testBit_lt_two_pow (Nat.lt_of_lt_of_le hn hpow)]

/-- The number that a pattern stands for. -/
def ofBits (bits : List Bool) : Nat := bits.foldl (fun n b => 2 * n + b.toNat) 0

@[simp] theorem ofBits_nil : ofBits [] = 0 := rfl

theorem ofBits_concat (bits : List Bool) (b : Bool) :
    ofBits (bits ++ [b]) = 2 * ofBits bits + b.toNat := by
  rw [ofBits, List.foldl_append]
  rfl

/-- A number put behind a pattern. -/
theorem ofBits_append_bitsOf (bits : List Bool) (n width : Nat) :
    ofBits (bits ++ bitsOf n width) = ofBits bits * 2 ^ width + n % 2 ^ width := by
  induction width generalizing bits with
  | zero => simp [bitsOf, Nat.mod_one]
  | succ width ih =>
    have hbit : n % 2 ^ (width + 1) = (n.testBit width).toNat * 2 ^ width + n % 2 ^ width := by
      rw [Nat.mod_pow_succ, Nat.toNat_testBit]
      ring
    rw [bitsOf, ← List.singleton_append, ← List.append_assoc, ih, ofBits_concat, hbit]
    ring

theorem ofBits_bitsOf (n width : Nat) : ofBits (bitsOf n width) = n % 2 ^ width := by
  have h := ofBits_append_bitsOf [] n width
  rwa [List.nil_append, ofBits_nil, Nat.zero_mul, Nat.zero_add] at h

theorem ofBits_lt (bits : List Bool) : ofBits bits < 2 ^ bits.length := by
  induction bits using List.reverseRecOn with
  | nil => decide
  | append_singleton bits b ih =>
    have hb := b.toNat_le
    rw [ofBits_concat, List.length_append, List.length_singleton, Nat.pow_succ]
    omega

theorem bitsOf_ofBits (bits : List Bool) : bitsOf (ofBits bits) bits.length = bits := by
  induction bits using List.reverseRecOn with
  | nil => rfl
  | append_singleton bits b ih =>
    have hlast : b.toNat < 2 ^ 1 := b.toNat_lt
    have hb : bitsOf b.toNat 1 = [b] := by cases b <;> rfl
    rw [ofBits_concat, List.length_append, List.length_singleton, Nat.mul_comm, ← Nat.pow_one 2,
      bitsOf_append hlast, ih, hb]

theorem twosComplement_eq_bitsOf (v : Int) (width : Nat) :
    twosComplement v width = bitsOf (v % 2 ^ width).toNat width := by
  rw [bitsOf_eq_map, twosComplement]
  apply List.map_congr_left
  intro k hk
  have hk : k < width := List.mem_range.mp hk
  have hcast : (v % ((2 ^ width : Nat) : Int)).toNat = (v % 2 ^ width).toNat := by push_cast; rfl
  rw [BitVec.getMsbD, decide_eq_true hk, Bool.true_and, BitVec.getLsbD, BitVec.toNat_ofInt, hcast]

theorem twosComplement_natCast (n width : Nat) : twosComplement n width = bitsOf n width := by
  rw [twosComplement_eq_bitsOf, ← bitsOf_mod n]
  norm_cast

/-! ## Slices -/

/-- A number below `2 ^ 128` is its own pattern. -/
theorem Number.bits_of_nonneg {v : Int} (hnonneg : 0 ≤ v) (hlt : v < 2 ^ 128) :
    (bits v : Int) = v := by
  rw [bits, pattern, BitVec.toNat_ofInt, Int.emod_eq_of_lt hnonneg (by exact_mod_cast hlt),
    Int.toNat_of_nonneg hnonneg]

theorem Number.and_lowMask (n : Nat) {width : Nat} (h : width ≤ 128) :
    n &&& lowMask width = n % 2 ^ width := by
  rw [lowMask, Nat.min_eq_left h, Nat.and_two_pow_sub_one_eq_mod]

namespace Slice

theorem two_pow_size_le (s : Slice) : (2 : Int) ^ s.size ≤ 2 ^ 126 := by
  exact_mod_cast Nat.pow_le_pow_right (by decide : 2 > 0) s.size_le

/-- **The pattern of a slice** is the remainder of its value. -/
theorem raw_eq (s : Slice) : (s.raw : Int) = s.value % 2 ^ s.size := by
  have hle := s.two_pow_size_le
  have hlow := s.value_ge
  have hhigh := s.value_lt
  unfold raw
  split
  · rename_i hzero
    rw [hzero, pow_zero, Int.emod_one, Nat.cast_zero]
  · split
    · -- Counted back from `2 ^ size`, a negative value is the remainder.
      rename_i hneg
      rw [Number.wrap_two_pow s.size_le, Number.bits_of_nonneg (by omega) (by omega),
        ← Int.add_emod_left, Int.emod_eq_of_lt (by omega) (by omega)]
    · rename_i hneg
      have hvalue : (Number.bits s.value : Int) = s.value :=
        Number.bits_of_nonneg (by omega) (by omega)
      have hwidth : s.size ≤ 128 := le_trans s.size_le (by decide)
      rw [Number.and_lowMask _ hwidth]
      push_cast
      rw [hvalue]

/-- The pattern of a slice. -/
def bits (s : Slice) : List Bool := bitsOf s.raw s.size

@[simp] theorem length_bits (s : Slice) : s.bits.length = s.size := length_bitsOf _ _

theorem bits_eq_twosComplement (s : Slice) : s.bits = twosComplement s.value s.size := by
  rw [bits, twosComplement_eq_bitsOf, ← s.raw_eq, Int.toNat_natCast]

theorem raw_lt (s : Slice) : s.raw < 2 ^ s.size := by
  have hlt := Int.emod_lt_of_pos s.value (Int.pow_pos (by decide) : (0 : Int) < 2 ^ s.size)
  rw [← s.raw_eq] at hlt
  exact_mod_cast hlt

theorem make_eq_ok {value : Int} {size : Nat} {s : Slice} (h : make value size = .ok s) :
    s.value = value ∧ s.size = size := by
  unfold make at h
  split at h
  · rename_i hsize
    split at h
    · rename_i hvalue
      cases h
      exact ⟨hvalue.symm, hsize.symm⟩
    · cases h
  · split at h
    · cases h
    · split at h
      · cases h
      · cases h
        exact ⟨rfl, rfl⟩

/-- A slice is the number of its pattern. -/
theorem ofBits_append_bits (bits : List Bool) (s : Slice) :
    ofBits (bits ++ s.bits) = ofBits bits * 2 ^ s.size + s.raw := by
  rw [Slice.bits, ofBits_append_bitsOf, Nat.mod_eq_of_lt s.raw_lt]

/-- **The values of slices** of up to 126 bits. -/
theorem exists_make_iff {value : Int} {size : Nat} (hpos : 0 < size) (hsize : size ≤ 126) :
    (∃ s, make value size = .ok s) ↔ -2 ^ (size - 1) ≤ value ∧ value < 2 ^ size := by
  unfold make
  rw [dif_neg (by omega), dif_neg (by omega)]
  simp only [Number.wrap_two_pow hsize]
  split
  · exact iff_of_false (by simp) (by omega)
  · exact iff_of_true ⟨_, rfl⟩ (by omega)

/-- A pattern of at most 126 bits is that of a slice. -/
theorem exists_make_ofBits {bits : List Bool} (h : bits.length ≤ 126) :
    ∃ s, make (ofBits bits) bits.length = .ok s ∧ s.bits = bits := by
  have hexists : ∃ s, make (ofBits bits) bits.length = .ok s := by
    rcases Nat.eq_zero_or_pos bits.length with hnil | hpos
    · obtain rfl := List.eq_nil_of_length_eq_zero hnil
      exact ⟨_, rfl⟩
    · have hlow : (0 : Int) < 2 ^ (bits.length - 1) := Int.pow_pos (by decide)
      have hlt : (ofBits bits : Int) < 2 ^ bits.length := by exact_mod_cast ofBits_lt bits
      exact (exists_make_iff hpos h).mpr ⟨by omega, hlt⟩
  obtain ⟨s, hs⟩ := hexists
  obtain ⟨hvalue, hsize⟩ := make_eq_ok hs
  refine ⟨s, hs, ?_⟩
  rw [bits_eq_twosComplement, hvalue, hsize, twosComplement_natCast, bitsOf_ofBits]

end Slice

/-! ## Words -/

/-- The geometries of words. -/
structure Geometry.Valid (g : Geometry) : Prop where
  size_pos : 0 < g.size
  size_le : g.size ≤ 128
  segment_dvd : g.segment ∣ g.size

namespace Word

/-- The pattern of a word. -/
def bits (w : Word) : List Bool := bitsOf w.value w.geometry.size

@[simp] theorem length_bits (w : Word) : w.bits.length = w.geometry.size := length_bitsOf _ _

/-- Words of one geometry are told apart by their bits. -/
theorem eq_of_bits_eq {v w : Word} (hg : v.geometry = w.geometry) (hb : v.bits = w.bits) :
    v = w := by
  have hlt := w.value_lt
  unfold bits at hb
  rw [← hg] at hb hlt
  have hvalue := bitsOf_injective v.value_lt hlt hb
  cases v
  cases w
  simp_all

/-- How a word is made. -/
theorem make_eq_ok {value : Nat} {g : Geometry} {w : Word} (h : make value g = .ok w) :
    w.value = value ∧ w.geometry = g := by
  unfold make at h
  split at h
  · split at h
    · split at h
      · cases h; exact ⟨rfl, rfl⟩
      · cases h
    · cases h
  · cases h

theorem make_of_valid {value : Nat} {g : Geometry} (hg : g.Valid) (hv : value < 2 ^ g.size) :
    ∃ w, make value g = .ok w := by
  unfold make
  rw [dif_pos ⟨hg.size_pos, hg.size_le⟩, dif_pos hg.segment_dvd, dif_pos hv]
  exact ⟨_, rfl⟩

/-- What is wrong with a geometry does not depend on the value. -/
theorem make_of_not_valid {g : Geometry} (hg : ¬ g.Valid) :
    ∃ e, ∀ value, make value g = .error e := by
  unfold make
  by_cases hsize : 0 < g.size ∧ g.size ≤ 128
  · have hsegment : ¬ g.segment ∣ g.size := fun h => hg ⟨hsize.1, hsize.2, h⟩
    exact ⟨_, fun value => by rw [dif_pos hsize, dif_neg hsegment]⟩
  · exact ⟨_, fun value => dif_neg hsize⟩

theorem bits_of_make {value : Nat} {g : Geometry} {w : Word} (h : make value g = .ok w) :
    w.bits = bitsOf value g.size := by
  obtain ⟨hvalue, hgeometry⟩ := make_eq_ok h
  rw [bits, hvalue, hgeometry]

end Word

end Retarget
