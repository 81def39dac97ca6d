import Retarget.Bits.Buffer
import Retarget.Proofs.Bits.Packing

/-!
# The bits of a buffer

A buffer is a list of bits, most significant bit of the first byte first, and zero bits up to the
end of its last byte.

* `byteBit`: the bits of a memory of bytes;
* `BitBuffer.Holds`: which bits a buffer holds, with `Holds.push`, `Holds.append`,
  `Holds.appendWord` and `Holds.appendWords` for what is added to it;
* `Word.written`: the bits of a word in the order in which they are written out
  (`Word.flatMap_orderedSegments`);
* `wordsToBytes_compact`: words written back to back.
-/

namespace Retarget

/-- Bit `n` of a memory of bytes, counted from the most significant bit of the byte at address 0. -/
def byteBit (memory : Nat → Option UInt8) (n : Nat) : Option Bool :=
  (memory (n / 8)).map fun b => b.toNat.testBit (7 - n % 8)

/-- The mask of bit `k` of a byte. -/
theorem testBit_mask {k m : Nat} (hk : k < 8) (hm : m < 8) :
    (0x80 >>> UInt8.ofNat k).toNat.testBit (7 - m) = decide (m = k) := by
  have hall : ∀ k m : Fin 8, (0x80 >>> UInt8.ofNat k).toNat.testBit (7 - m) =
      decide (m.val = k.val) := by
    decide
  exact hall ⟨k, hk⟩ ⟨m, hm⟩

/-- A bit of a byte is set, all others stay. -/
theorem byteBit_modify (bytes : Array UInt8) (i : Nat) {k : Nat} (hk : k < 8) (n : Nat) :
    byteBit ((bytes.modify i (· ||| (0x80 >>> UInt8.ofNat k)))[·]?) n =
      (byteBit (bytes[·]?) n).map (· || decide (n = 8 * i + k)) := by
  simp only [byteBit, Array.getElem?_modify]
  by_cases hi : i = n / 8
  · have hat : decide (n % 8 = k) = decide (n = 8 * i + k) := decide_eq_decide.mpr (by omega)
    rw [if_pos hi, Option.map_map, Option.map_map]
    congr 1
    funext b
    rw [Function.comp_apply, Function.comp_apply, UInt8.toNat_or, Nat.testBit_or,
      testBit_mask hk (Nat.mod_lt n (by decide)), hat]
  · rw [if_neg hi, decide_eq_false (show ¬n = 8 * i + k by omega)]
    simp only [Bool.or_false, Option.map_id']

theorem getD_concat (bits : List Bool) (bit : Bool) (n : Nat) :
    (bits ++ [bit]).getD n false = (bits.getD n false || (bit && decide (n = bits.length))) := by
  rcases Nat.lt_trichotomy n bits.length with hn | rfl | hn
  · rw [List.getD_append _ _ _ _ hn, decide_eq_false (by omega), Bool.and_false, Bool.or_false]
  · simp
  · rw [List.getD_eq_default _ _ (by simp; omega), List.getD_eq_default _ _ (by omega),
      decide_eq_false (by omega), Bool.and_false, Bool.or_false]

namespace BitBuffer

/-- A buffer holds the given bits: its bytes are those begun, and behind the bits they are zero. -/
structure Holds (b : BitBuffer) (bits : List Bool) : Prop where
  length_eq : b.length = bits.length
  size_eq : b.bytes.size = (bits.length + 7) / 8
  bit_eq : ∀ n < 8 * b.bytes.size, byteBit (b.bytes[·]?) n = some (bits.getD n false)

/-- The bytes of a buffer once the byte of its next bit is begun. -/
def begun (b : BitBuffer) : Array UInt8 := if b.length % 8 = 0 then b.bytes.push 0 else b.bytes

namespace Holds

variable {b : BitBuffer} {bits : List Bool}

theorem nil : empty.Holds [] := ⟨rfl, rfl, by simp [empty]⟩

theorem size_begun (h : b.Holds bits) : b.begun.size = bits.length / 8 + 1 := by
  have hsize := h.size_eq
  rw [begun, h.length_eq]
  split
  · rw [Array.size_push]
    omega
  · omega

/-- A new byte is zero. -/
theorem bit_begun (h : b.Holds bits) {n : Nat} (hn : n < 8 * b.begun.size) :
    byteBit (b.begun[·]?) n = some (bits.getD n false) := by
  have hsize := h.size_eq
  rw [h.size_begun] at hn
  by_cases hold : n < 8 * b.bytes.size
  · have hkept : b.begun[n / 8]? = b.bytes[n / 8]? := by
      unfold begun
      split
      · rw [Array.getElem?_push, if_neg (by omega)]
      · rfl
    rw [← h.bit_eq n hold, byteBit, byteBit, hkept]
  · have hzero : b.length % 8 = 0 := by
      rw [h.length_eq]
      omega
    have hlast : n / 8 = b.bytes.size := by
      rw [h.length_eq] at hzero
      omega
    rw [byteBit, begun, if_pos hzero, hlast, Array.getElem?_push_size, Option.map_some,
      List.getD_eq_default]
    · simp
    · omega

/-- **A bit is added.** -/
theorem push (h : b.Holds bits) (bit : Bool) : (b.push bit).Holds (bits ++ [bit]) := by
  have hsize := h.size_begun
  have hpush : (b.push bit).bytes =
      if bit then b.begun.modify (b.begun.size - 1) (· ||| (0x80 >>> UInt8.ofNat (b.length % 8)))
      else b.begun := rfl
  have hpush_size : (b.push bit).bytes.size = b.begun.size := by
    rw [hpush]
    split
    · rw [Array.size_modify]
    · rfl
  refine ⟨?_, ?_, ?_⟩
  · rw [List.length_append, List.length_singleton, ← h.length_eq]
    rfl
  · rw [hpush_size, hsize, List.length_append, List.length_singleton]
    omega
  · intro n hn
    rw [hpush_size] at hn
    rw [hpush, getD_concat]
    cases bit with
    | false => simpa using h.bit_begun hn
    | true =>
      have hat : 8 * (b.begun.size - 1) + b.length % 8 = bits.length := by
        rw [hsize, h.length_eq]
        omega
      rw [if_pos rfl, byteBit_modify _ _ (Nat.mod_lt _ (by decide)), h.bit_begun hn, hat,
        Option.map_some, Bool.true_and]

/-- **A field is added.** -/
theorem append (h : b.Holds bits) (value width : Nat) :
    (b.append value width).Holds (bits ++ bitsOf value width) := by
  induction width generalizing b bits with
  | zero => simpa [BitBuffer.append, bitsOf] using h
  | succ width ih =>
    have hrest := ih (h.push (value.testBit width))
    rw [List.append_assoc, List.singleton_append] at hrest
    exact hrest

/-- Fields of one width are added one after the other. -/
theorem foldl_append (h : b.Holds bits) (width : Nat) (values : List Nat) :
    (values.foldl (fun b v => b.append v width) b).Holds (bits ++
      values.flatMap (bitsOf · width)) := by
  induction values generalizing b bits with
  | nil => simpa using h
  | cons v values ih => simpa [List.append_assoc] using ih (h.append v width)

end Holds

end BitBuffer

/-! ## Words -/

/-- A position in a row of lists of equal length. -/
theorem getElem?_flatMap_of_length {α β : Type} {f : α → List β} {size : Nat} {xs : List α}
    (h : ∀ x ∈ xs, (f x).length = size) (i : Nat) {j : Nat} (hj : j < size) :
    (xs.flatMap f)[i * size + j]? = xs[i]?.bind fun x => (f x)[j]? := by
  induction xs generalizing i with
  | nil => rfl
  | cons x xs ih =>
    obtain ⟨hx, hxs⟩ := List.forall_mem_cons.mp h
    rw [List.flatMap_cons]
    cases i with
    | zero => rw [Nat.zero_mul, Nat.zero_add, List.getElem?_append_left (by omega)]; rfl
    | succ i =>
      have hrest : (i + 1) * size + j - size = i * size + j := by
        rw [Nat.succ_mul]
        omega
      rw [List.getElem?_append_right (by rw [hx, Nat.succ_mul]; omega), hx, hrest, ih hxs]
      rfl

namespace Word

/-- Bit `j` of a word in the order in which its bits are written out: the segments in their order,
each of them most significant bit first. -/
def writtenBit (w : Word) (j : Nat) : Bool :=
  match w.geometry.order with
  | .big => w.value.testBit (w.geometry.size - 1 - j)
  | .little => w.value.testBit
      (j / w.geometry.segment * w.geometry.segment +
        (w.geometry.segment - 1 - j % w.geometry.segment))

/-- The bits of a word in the order in which they are written out. -/
def written (w : Word) : List Bool := (List.range w.geometry.size).map w.writtenBit

@[simp] theorem length_written (w : Word) : w.written.length = w.geometry.size := by simp [written]

theorem getElem?_written (w : Word) {j : Nat} (hj : j < w.geometry.size) :
    w.written[j]? = some (w.writtenBit j) := by
  rw [written, List.getElem?_map, List.getElem?_range hj, Option.map_some]

theorem div_mod_of_lt {i size : Nat} (hi : i < size) (k : Nat) :
    (k * size + i) / size = k ∧ (k * size + i) % size = i := by
  constructor
  · rw [Nat.mul_comm, Nat.mul_add_div (by omega), Nat.div_eq_of_lt hi, Nat.add_zero]
  · exact Nat.mul_add_mod_of_lt hi

/-- Segments from the least significant one on. -/
theorem flatMap_range_segment (value segment count : Nat) :
    ((List.range count).flatMap fun k => bitsOf (value / 2 ^ (k * segment) % 2 ^ segment) segment) =
      (List.range (count * segment)).map fun j =>
        value.testBit (j / segment * segment + (segment - 1 - j % segment)) := by
  induction count with
  | zero => simp
  | succ count ih =>
    rw [List.range_succ, List.flatMap_append, ih, Nat.succ_mul, List.range_add, List.map_append,
      List.flatMap_singleton, bitsOf_mod, bitsOf_eq_map, List.map_map]
    congr 1
    apply List.map_congr_left
    intro i hi
    obtain ⟨hdiv, hmod⟩ := div_mod_of_lt (List.mem_range.mp hi) count
    rw [Function.comp_apply, Nat.testBit_div_two_pow, hdiv, hmod, Nat.add_comm]

theorem reverse_segments (w : Word) :
    w.segments.reverse = (List.range (w.geometry.size / w.geometry.segment)).map fun k =>
      w.value / 2 ^ (k * w.geometry.segment) % 2 ^ w.geometry.segment := by
  apply List.ext_getElem
  · simp [segments]
  · intro k _ hk
    have hk : k < w.geometry.size / w.geometry.segment := by simpa using hk
    have hback : w.geometry.size / w.geometry.segment - 1 -
        (w.geometry.size / w.geometry.segment - 1 - k) = k := by omega
    simp only [segments, List.getElem_reverse, List.getElem_map, List.getElem_range,
      List.length_map, List.length_range, hback]

theorem flatMap_segments (w : Word) :
    w.segments.flatMap (bitsOf · w.geometry.segment) = w.bits := by
  rw [segments, List.flatMap_map, flatMap_range_bitsOf, Nat.div_mul_cancel w.segment_dvd, bits]

/-- The segments of a word are its bits in the order in which they are written out. -/
theorem flatMap_orderedSegments (w : Word) :
    w.orderedSegments.flatMap (bitsOf · w.geometry.segment) = w.written := by
  unfold orderedSegments written writtenBit
  cases w.geometry.order with
  | big =>
    rw [Endian.arrange, flatMap_segments, bits, bitsOf_eq_map]
  | little =>
    rw [Endian.arrange, reverse_segments, List.flatMap_map, flatMap_range_segment,
      Nat.div_mul_cancel w.segment_dvd]

/-- Every position is that of a bit which is mirrored inside its segment. -/
theorem exists_mirrored {n segment size : Nat} (hdvd : segment ∣ size) (hn : n < size) :
    ∃ j < size, j / segment * segment + (segment - 1 - j % segment) = n := by
  have hpos : 0 < segment := Nat.pos_of_dvd_of_pos hdvd (by omega)
  have hin := Nat.mod_lt n hpos
  have hparts := Nat.div_add_mod' n segment
  have hmirror : segment - 1 - n % segment < segment := by omega
  obtain ⟨hdiv, hmod⟩ := div_mod_of_lt hmirror (n / segment)
  have hend : (n / segment + 1) * segment ≤ size := by
    rw [← Nat.div_mul_cancel hdvd]
    exact Nat.mul_le_mul_right segment (Nat.div_lt_div_of_lt_of_dvd hdvd hn)
  rw [Nat.succ_mul] at hend
  refine ⟨n / segment * segment + (segment - 1 - n % segment), by omega, ?_⟩
  rw [hdiv, hmod]
  omega

/-- Every bit of a word is written. -/
theorem exists_writtenBit (w : Word) {n : Nat} (hn : n < w.geometry.size) :
    ∃ j < w.geometry.size, w.writtenBit j = w.value.testBit n := by
  unfold writtenBit
  cases w.geometry.order with
  | big =>
    refine ⟨w.geometry.size - 1 - n, by omega, ?_⟩
    show w.value.testBit _ = _
    congr 1
    omega
  | little =>
    obtain ⟨j, hj, hmirrored⟩ := exists_mirrored w.segment_dvd hn
    refine ⟨j, hj, ?_⟩
    show w.value.testBit _ = _
    rw [hmirrored]

/-- A word whose written bits are all zero is zero. -/
theorem value_eq_zero_iff (w : Word) :
    w.value = 0 ↔ ∀ j < w.geometry.size, w.writtenBit j = false := by
  constructor
  · intro h j _
    unfold writtenBit
    split <;> rw [h, Nat.zero_testBit]
  · intro h
    apply Nat.eq_of_testBit_eq
    intro n
    rw [Nat.zero_testBit]
    by_cases hn : n < w.geometry.size
    · obtain ⟨j, hj, hbit⟩ := w.exists_writtenBit hn
      rw [← hbit, h j hj]
    · exact Nat.testBit_lt_two_pow
        (Nat.lt_of_lt_of_le w.value_lt (Nat.pow_le_pow_right (by decide) (by omega)))

/-! ## Words one after the other -/

variable {words : List Word} {size : Nat}

/-- The bits of words of one size, word by word. -/
theorem forall_written_iff (hsize : ∀ w ∈ words, w.geometry.size = size) {P : Nat → Bool → Prop} :
    (∀ n b, (words.flatMap written)[n]? = some b → P n b) ↔
      ∀ i w j, words[i]? = some w → j < size → P (i * size + j) (w.writtenBit j) := by
  have hlength : ∀ w ∈ words, w.written.length = size := by simpa using hsize
  constructor
  · intro h i w j hw hj
    apply h
    rw [getElem?_flatMap_of_length hlength i hj, hw, Option.bind_some]
    exact w.getElem?_written (by rwa [hsize w (List.mem_of_getElem? hw)])
  · intro h n b hb
    have hpos : 0 < size := by
      obtain ⟨w, hw, -⟩ := List.mem_flatMap.mp (List.mem_of_getElem? hb)
      rw [← hsize w hw]
      exact w.size_pos
    have hj := Nat.mod_lt n hpos
    rw [← Nat.div_add_mod' n size, getElem?_flatMap_of_length hlength _ hj] at hb
    obtain ⟨w, hw, hb⟩ := Option.bind_eq_some_iff.mp hb
    rw [w.getElem?_written (by rwa [hsize w (List.mem_of_getElem? hw)])] at hb
    cases hb
    have hat := h _ w _ hw hj
    rwa [Nat.div_add_mod'] at hat

theorem length_flatMap_written (hsize : ∀ w ∈ words, w.geometry.size = size) :
    (words.flatMap written).length = words.length * size := by
  rw [List.length_flatMap, List.map_congr_left fun w hw => (length_written w).trans (hsize w hw)]
  simp

theorem flatMap_written_eq_nil : words.flatMap written = [] ↔ words = [] := by
  constructor
  · intro h
    cases words with
    | nil => rfl
    | cons w words =>
      have hlength := congrArg List.length h
      rw [List.flatMap_cons, List.length_append, length_written] at hlength
      have := w.size_pos
      simp only [List.length_nil] at hlength
      omega
  · rintro rfl
    rfl

theorem forall_mem_written_iff :
    (∀ b ∈ words.flatMap written, b = false) ↔ ∀ w ∈ words, w.value = 0 := by
  simp only [value_eq_zero_iff, written, List.mem_flatMap, List.mem_map, List.mem_range]
  constructor
  · intro h w hw j hj
    exact h _ ⟨w, hw, j, hj, rfl⟩
  · rintro h b ⟨w, hw, j, hj, rfl⟩
    exact h w hw j hj

end Word

namespace BitBuffer.Holds

variable {b : BitBuffer} {bits : List Bool}

/-- **A word is added.** -/
theorem appendWord (h : b.Holds bits) (w : Word) :
    (b.appendWord w false).Holds (bits ++ w.written) := by
  rw [← w.flatMap_orderedSegments]
  exact h.foldl_append _ _

/-- **Words are added back to back.** -/
theorem appendWords (h : b.Holds bits) (words : List Word) :
    (b.appendWords words true).Holds (bits ++ words.flatMap Word.written) := by
  unfold BitBuffer.appendWords
  induction words generalizing b bits with
  | nil => simpa using h
  | cons w words ih =>
    rw [List.flatMap_cons, ← List.append_assoc]
    exact ih (h.appendWord w)

end BitBuffer.Holds

/-- **Words back to back.** The bytes of words are their bits one after the other, and zero bits up
to the end of the last byte. -/
theorem wordsToBytes_compact (words : List Word) :
    (wordsToBytes words true).size = ((words.flatMap Word.written).length + 7) / 8 ∧
      ∀ n < 8 * (wordsToBytes words true).size,
        byteBit ((wordsToBytes words true)[·]?) n =
          some ((words.flatMap Word.written).getD n false) := by
  have h := BitBuffer.Holds.nil.appendWords words
  rw [List.nil_append] at h
  exact ⟨h.size_eq, h.bit_eq⟩

end Retarget
