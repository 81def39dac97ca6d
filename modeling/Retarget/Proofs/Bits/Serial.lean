import Retarget.Proofs.Bits.Buffer

/-!
# Reading words back from bytes

Words of one geometry that are written to bytes can be read back, whether they stand back to back or
each from a byte boundary on.

* `Geometry.readWords`: the values of words in bytes. The bits are cut into groups, each group into
  segments, and the segments are put back into the order of their significance;
* `Word.read_written`: the written bits of a word give its value;
* `BitBuffer.Holds.byteBits_eq`, `BitBuffer.Holds.pad`, `BitBuffer.Holds.appendAligned`: the bits of
  the bytes of a buffer, also where words start at byte boundaries; `BitBuffer.Holds.take_byteBits`
  and `BitBuffer.Holds.drop_byteBits` for those in front of the length of a buffer and those behind
  it.
-/

namespace Retarget

/-! ## Groups of bits -/

/-- `count` groups of `size` bits; each of them starts `stride` bits behind the start of the one
before. -/
def groups (stride size count : Nat) (bits : List Bool) : List (List Bool) :=
  (List.range count).map fun i => (bits.drop (i * stride)).take size

/-- The bits of bytes, most significant first. -/
def byteBits (bytes : Array UInt8) : List Bool := bytes.toList.flatMap fun b => bitsOf b.toNat 8

namespace Geometry

/-- The value of the word with the given written bits. -/
def readWord (g : Geometry) (bits : List Bool) : Nat :=
  ofBits (g.order.arrange (groups g.segment g.segment (g.size / g.segment) bits)).flatten

/-- The values of `count` words in bytes, of which each starts `stride` bits behind the start of the
one before. -/
def readWords (g : Geometry) (stride count : Nat) (bytes : Array UInt8) : List Nat :=
  (groups stride g.size count (byteBits bytes)).map g.readWord

end Geometry

theorem groups_succ (stride size count : Nat) (bits : List Bool) :
    groups stride size (count + 1) bits =
      bits.take size :: groups stride size count (bits.drop stride) := by
  rw [groups, groups, List.range_succ_eq_map, List.map_cons, List.map_map, Nat.zero_mul,
    List.drop_zero]
  congr 1
  apply List.map_congr_left
  intro i _
  rw [Function.comp_apply, List.drop_drop, Nat.succ_mul, Nat.add_comm]

/-- The groups of a row of patterns of equal length, of which the first `size` bits count. -/
theorem groups_flatMap {α : Type} {f : α → List Bool} {stride : Nat} (size : Nat) {xs : List α}
    (h : ∀ x ∈ xs, (f x).length = stride) (hsize : size ≤ stride) (rest : List Bool) :
    groups stride size xs.length (xs.flatMap f ++ rest) = xs.map fun x => (f x).take size := by
  induction xs with
  | nil => rfl
  | cons x xs ih =>
    obtain ⟨hx, hxs⟩ := List.forall_mem_cons.mp h
    rw [List.length_cons, groups_succ, List.flatMap_cons, List.append_assoc,
      List.take_append_of_le_length (by omega), List.drop_left' hx, ih hxs, List.map_cons]

/-! ## One word -/

theorem Endian.arrange_arrange {α : Type} (order : Endian) (items : List α) :
    order.arrange (order.arrange items) = items := by
  cases order <;> simp [arrange]

theorem Endian.arrange_map {α β : Type} (order : Endian) (f : α → β) (items : List α) :
    order.arrange (items.map f) = (order.arrange items).map f := by
  cases order <;> simp [arrange]

namespace Word

theorem length_orderedSegments (w : Word) :
    w.orderedSegments.length = w.geometry.size / w.geometry.segment := by
  rw [orderedSegments, Endian.length_arrange, segments, List.length_map, List.length_range]

/-- **The written bits of a word give its value.** -/
theorem read_written (w : Word) : w.geometry.readWord w.written = w.value := by
  have hlength : ∀ n ∈ w.orderedSegments, (bitsOf n w.geometry.segment).length =
      w.geometry.segment :=
    fun _ _ => length_bitsOf _ _
  have hcut := groups_flatMap w.geometry.segment hlength le_rfl []
  have hwhole (n : Nat) : (bitsOf n w.geometry.segment).take w.geometry.segment =
      bitsOf n w.geometry.segment := List.take_of_length_le (length_bitsOf _ _).le
  simp only [hwhole, List.append_nil, flatMap_orderedSegments, length_orderedSegments] at hcut
  rw [Geometry.readWord, hcut, Endian.arrange_map, orderedSegments, Endian.arrange_arrange,
    ← List.flatMap_def, flatMap_segments, bits, ofBits_bitsOf, Nat.mod_eq_of_lt w.value_lt]

/-- The written bits of a word, and zero bits up to the end of the last byte. -/
def writtenBytes (w : Word) : List Bool := w.written.rightpad (wholeBits 8 w.geometry.size) false

theorem length_writtenBytes (w : Word) : w.writtenBytes.length = wholeBits 8 w.geometry.size := by
  have hle : w.geometry.size ≤ wholeBits 8 w.geometry.size := le_wholeBits (by decide) _
  rw [writtenBytes, List.length_rightpad, length_written]
  omega

theorem take_writtenBytes (w : Word) : w.writtenBytes.take w.geometry.size = w.written := by
  rw [writtenBytes, List.rightpad, List.take_left' w.length_written]

end Word

/-! ## The bits of bytes -/

theorem getElem?_byteBits (bytes : Array UInt8) (n : Nat) :
    (byteBits bytes)[n]? = byteBit (bytes[·]?) n := by
  have hlast := Nat.mod_lt n (show 0 < 8 by decide)
  have hbit (b : UInt8) : (bitsOf b.toNat 8)[n % 8]? = some (b.toNat.testBit (7 - n % 8)) := by
    rw [bitsOf_eq_map, List.getElem?_map, List.getElem?_range hlast, Option.map_some]
  conv_lhs => rw [← Nat.div_add_mod' n 8]
  rw [byteBits, getElem?_flatMap_of_length (fun _ _ => length_bitsOf _ _) _ hlast, byteBit,
    Array.getElem?_toList]
  simp only [hbit]
  cases bytes[n / 8]? <;> rfl

theorem length_byteBits (bytes : Array UInt8) : (byteBits bytes).length = 8 * bytes.size := by
  rw [byteBits, List.length_flatMap, List.map_congr_left fun _ _ => length_bitsOf _ _]
  simp [Nat.mul_comm]

theorem getElem?_rightpad {bits : List Bool} {width n : Nat} (hn : n < width) :
    (bits.rightpad width false)[n]? = some (bits.getD n false) := by
  by_cases hbits : n < bits.length
  · rw [List.rightpad, List.getElem?_append_left hbits, List.getElem?_eq_getElem hbits,
      List.getD_eq_getElem bits false hbits]
  · rw [List.rightpad, List.getElem?_append_right (by omega), List.getElem?_replicate,
      if_pos (by omega), List.getD_eq_default bits false (by omega)]

namespace BitBuffer

theorem bytes_pad (b : BitBuffer) : b.pad.bytes = b.bytes := by
  unfold pad
  split <;> rfl

theorem pad_of_dvd {b : BitBuffer} (h : 8 ∣ b.length) : b.pad = b :=
  if_pos (Nat.mod_eq_zero_of_dvd h)

theorem dvd_length_pad (b : BitBuffer) : 8 ∣ b.pad.length := by
  unfold pad
  split
  · omega
  · show 8 ∣ b.length + (8 - b.length % 8)
    omega

theorem appendWord_aligned (b : BitBuffer) (w : Word) :
    b.appendWord w true = b.pad.appendWord w false := rfl

namespace Holds

variable {b : BitBuffer} {bits : List Bool}

theorem size_eq_ceilDiv (h : b.Holds bits) : b.bytes.size = bits.length ⌈/⌉ 8 := by
  rw [h.size_eq, Nat.ceilDiv_eq_add_pred_div]
  rfl

/-- The bytes of a buffer are its bits, and zero bits up to the end of the last byte. -/
theorem byteBits_eq (h : b.Holds bits) :
    byteBits b.bytes = bits.rightpad (wholeBits 8 bits.length) false := by
  have hsize : 8 * b.bytes.size = wholeBits 8 bits.length := by
    rw [h.size_eq_ceilDiv, wholeBits, Nat.mul_comm]
  have hle : bits.length ≤ wholeBits 8 bits.length := le_wholeBits (by decide) _
  apply List.ext_getElem?
  intro n
  by_cases hn : n < 8 * b.bytes.size
  · rw [getElem?_byteBits, h.bit_eq n hn, getElem?_rightpad (by omega)]
  · rw [List.getElem?_eq_none (by rw [length_byteBits]; omega),
      List.getElem?_eq_none (by rw [List.length_rightpad]; omega)]

theorem take_byteBits (h : b.Holds bits) : (byteBits b.bytes).take bits.length = bits := by
  rw [h.byteBits_eq, List.rightpad, List.take_left]

/-- What stands behind the bits of a buffer in its last byte. -/
theorem drop_byteBits (h : b.Holds bits) :
    ∀ bit ∈ (byteBits b.bytes).drop bits.length, bit = false := by
  rw [h.byteBits_eq, List.rightpad, List.drop_left]
  exact fun bit hbit => List.eq_of_mem_replicate hbit

/-- **The last byte is completed.** -/
theorem pad (h : b.Holds bits) : b.pad.Holds (bits.rightpad (wholeBits 8 bits.length) false) := by
  have hle : bits.length ≤ wholeBits 8 bits.length := le_wholeBits (by decide) _
  have hwhole : wholeBits 8 bits.length = (bits.length + 7) / 8 * 8 := by
    rw [wholeBits, Nat.ceilDiv_eq_add_pred_div]
    rfl
  have hlength : (bits.rightpad (wholeBits 8 bits.length) false).length =
      wholeBits 8 bits.length := by
    rw [List.length_rightpad]
    omega
  refine ⟨?_, ?_, ?_⟩
  · rw [hlength, hwhole, ← h.length_eq]
    unfold BitBuffer.pad
    split
    · omega
    · show b.length + (8 - b.length % 8) = _
      omega
  · rw [bytes_pad, h.size_eq, hlength]
    omega
  · intro n hn
    rw [bytes_pad] at hn ⊢
    have hn' : n < wholeBits 8 bits.length := by
      rw [h.size_eq] at hn
      omega
    have hpadded :=
      List.getD_eq_getElem?_getD (l := bits.rightpad (wholeBits 8 bits.length) false) (i := n)
      (a := false)
    rw [h.bit_eq n hn, hpadded, getElem?_rightpad hn', Option.getD_some]

/-- **A word is added from a byte boundary on.** -/
theorem appendAligned (h : b.pad.Holds bits) (w : Word) :
    (b.appendWord w true).pad.Holds (bits ++ w.writtenBytes) := by
  have hdvd : 8 ∣ bits.length := h.length_eq ▸ b.dvd_length_pad
  have hpad : (bits ++ w.written).rightpad (wholeBits 8 (bits ++ w.written).length) false =
      bits ++ w.writtenBytes := by
    rw [List.length_append, wholeBits_add (by decide) hdvd, Word.length_written, Word.writtenBytes,
      List.rightpad, List.rightpad, List.length_append, Nat.add_sub_add_left, List.append_assoc]
  rw [appendWord_aligned, ← hpad]
  exact (h.appendWord w).pad

/-- **Words are added, each from a byte boundary on.** -/
theorem appendWordsAligned (h : b.pad.Holds bits) (words : List Word) :
    (b.appendWords words false).pad.Holds (bits ++ words.flatMap Word.writtenBytes) := by
  unfold BitBuffer.appendWords
  induction words generalizing b bits with
  | nil => simpa using h
  | cons w words ih =>
    rw [List.flatMap_cons, ← List.append_assoc]
    exact ih (h.appendAligned w)

end Holds

/-- Words of whole bytes start at byte boundaries anyway. -/
theorem appendWords_of_dvd {b : BitBuffer} {bits : List Bool} {words : List Word} (h : b.Holds bits)
    (hb : 8 ∣ bits.length) (hwords : ∀ w ∈ words, 8 ∣ w.geometry.size) :
    b.appendWords words false = b.appendWords words true := by
  unfold appendWords
  induction words generalizing b bits with
  | nil => rfl
  | cons w words ih =>
    obtain ⟨hw, hwords⟩ := List.forall_mem_cons.mp hwords
    have hstep : b.appendWord w true = b.appendWord w false := by
      rw [appendWord_aligned, pad_of_dvd (h.length_eq ▸ hb)]
    have hlength : 8 ∣ (bits ++ w.written).length := by
      rw [List.length_append, Word.length_written]
      exact Nat.dvd_add hb hw
    rw [List.foldl_cons, List.foldl_cons, Bool.not_false, Bool.not_true, hstep]
    exact ih (h.appendWord w) hlength hwords

end BitBuffer

/-! ## Words in bytes -/

section Words

variable {g : Geometry} {words : List Word}

theorem readWords_compact (hg : ∀ w ∈ words, w.geometry = g) :
    g.readWords g.size words.length (wordsToBytes words true) = words.map Word.value := by
  have hlength : ∀ w ∈ words, w.written.length = g.size :=
    fun w hw => by rw [Word.length_written, hg w hw]
  have hbits := (BitBuffer.Holds.nil.appendWords words).byteBits_eq
  rw [Geometry.readWords, wordsToBytes, hbits, List.nil_append, List.rightpad,
    groups_flatMap g.size hlength le_rfl, List.map_map]
  apply List.map_congr_left
  intro w hw
  rw [Function.comp_apply, ← hlength w hw, List.take_length, ← hg w hw, Word.read_written]

/-- What stands behind the bits of all words in the last byte. -/
theorem drop_byteBits_compact (hg : ∀ w ∈ words, w.geometry = g) :
    ∀ bit ∈ (byteBits (wordsToBytes words true)).drop (words.length * g.size), bit = false := by
  have hzero := (BitBuffer.Holds.nil.appendWords words).drop_byteBits
  rwa [List.nil_append, Word.length_flatMap_written fun w hw => congrArg Geometry.size (hg w hw)]
    at hzero

/-- The bytes of words that start at byte boundaries. -/
theorem holds_aligned (words : List Word) :
    (BitBuffer.empty.appendWords words false).pad.Holds (words.flatMap Word.writtenBytes) :=
  BitBuffer.Holds.appendWordsAligned (b := .empty) .nil words

theorem readWords_aligned (hg : ∀ w ∈ words, w.geometry = g) :
    g.readWords (wholeBits 8 g.size) words.length (wordsToBytes words false) =
      words.map Word.value := by
  have hlength : ∀ w ∈ words, w.writtenBytes.length = wholeBits 8 g.size := fun w hw => by
    rw [Word.length_writtenBytes, hg w hw]
  have hbits := (holds_aligned words).byteBits_eq
  rw [BitBuffer.bytes_pad] at hbits
  rw [Geometry.readWords, wordsToBytes, hbits, List.rightpad,
    groups_flatMap g.size hlength (le_wholeBits (by decide) _), List.map_map]
  apply List.map_congr_left
  intro w hw
  rw [Function.comp_apply, ← hg w hw, Word.take_writtenBytes, Word.read_written]

theorem size_aligned (hg : ∀ w ∈ words, w.geometry = g) :
    (wordsToBytes words false).size = words.length * (g.size ⌈/⌉ 8) := by
  have hlength : (words.flatMap Word.writtenBytes).length = words.length * wholeBits 8 g.size := by
    rw [List.length_flatMap,
      List.map_congr_left fun w hw => by rw [Word.length_writtenBytes, hg w hw]]
    simp
  have hsize := (holds_aligned words).size_eq
  rw [BitBuffer.bytes_pad, hlength, wholeBits, ← Nat.mul_assoc] at hsize
  rw [wordsToBytes, hsize]
  omega

end Words

/-- **Words can be read back from their bytes.** Back to back they take as many bytes as their bits
need, and the bits that are left in the last byte are zero; or each of them takes whole bytes of its
own. Both ways, cutting the bits into words and the words into segments gives back the values; and
for words of whole bytes there is only one way. -/
theorem readWords_wordsToBytes (g : Geometry) (words : List Word)
    (hg : ∀ w ∈ words, w.geometry = g) :
    ((wordsToBytes words true).size = (words.length * g.size) ⌈/⌉ 8 ∧
      (∀ bit ∈ (byteBits (wordsToBytes words true)).drop (words.length * g.size), bit = false) ∧
      g.readWords g.size words.length (wordsToBytes words true) = words.map Word.value) ∧
    ((wordsToBytes words false).size = words.length * (g.size ⌈/⌉ 8) ∧
      g.readWords (g.size ⌈/⌉ 8 * 8) words.length (wordsToBytes words false) =
        words.map Word.value) ∧
    (8 ∣ g.size → wordsToBytes words false = wordsToBytes words true) := by
  refine ⟨⟨?_, drop_byteBits_compact hg, readWords_compact hg⟩,
    ⟨size_aligned hg, readWords_aligned hg⟩, fun h => ?_⟩
  · rw [(wordsToBytes_compact words).1,
      Word.length_flatMap_written fun w hw => congrArg Geometry.size (hg w hw),
      Nat.ceilDiv_eq_add_pred_div]
    rfl
  · have hwords : ∀ w ∈ words, 8 ∣ w.geometry.size := fun w hw => by rwa [hg w hw]
    rw [wordsToBytes, wordsToBytes, BitBuffer.appendWords_of_dvd .nil (Nat.dvd_zero 8) hwords]

/-- Three words of 12 bits with their three segments in reverse: 0x123 is written as 3, 2, 1. Back
to back they take five bytes, of which the last half byte is zero, and six bytes otherwise. -/
theorem readWords_wordsToBytes_twelve :
    let g : Geometry := { size := 12, segment := 4, order := .little }
    let word (value : Nat) (h : value < 2 ^ 12) : Word :=
      { value, geometry := g, size_pos := by decide, size_le := by decide,
        segment_dvd := by decide, value_lt := h }
    let words := [word 0x123 (by decide), word 0xabc (by decide), word 0x00f (by decide)]
    (∀ w ∈ words, w.geometry = g) ∧
      wordsToBytes words true = #[0x32, 0x1c, 0xba, 0xf0, 0x00] ∧
      wordsToBytes words false = #[0x32, 0x10, 0xcb, 0xa0, 0xf0, 0x00] ∧
      g.readWords 12 3 #[0x32, 0x1c, 0xba, 0xf0, 0x00] = [0x123, 0xabc, 0x00f] ∧
      g.readWords 16 3 #[0x32, 0x10, 0xcb, 0xa0, 0xf0, 0x00] = [0x123, 0xabc, 0x00f] := by
  intro g word words
  have hg : ∀ w ∈ words, w.geometry = g := by simp [words, word]
  have hcompact : wordsToBytes words true = #[0x32, 0x1c, 0xba, 0xf0, 0x00] := by decide +kernel
  have haligned : wordsToBytes words false = #[0x32, 0x10, 0xcb, 0xa0, 0xf0, 0x00] := by
    decide +kernel
  obtain ⟨⟨-, -, hread⟩, ⟨-, hread'⟩, -⟩ := readWords_wordsToBytes g words hg
  rw [hcompact] at hread
  rw [haligned, show g.size ⌈/⌉ 8 = 2 from Nat.ceilDiv_eq_add_pred_div 12 8] at hread'
  exact ⟨hg, hcompact, haligned, hread, hread'⟩

end Retarget
