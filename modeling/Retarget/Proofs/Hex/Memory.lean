import Retarget.Assembly.Program
import Retarget.Proofs.Bits.Buffer
import Retarget.Proofs.Hex.File

/-!
# Programs in a memory of bytes

The words of a program are written back to back, and the addresses of its Intel HEX file count
bytes. Word `i` of a program that starts at word `start` belongs to bit `(start + i) * wordSize` of
the memory.

* `HexFile.bitAt`: the bits of the memory that a file describes, with `HexFile.bitAt_imageFile`;
* `shifted_iff`: which bits stay the same when they are moved on;
* `toHex_bits`: where the words of a program are, and when these are their places.
-/

namespace Retarget

namespace HexFile

/-- Bit `n` of the memory that a file describes, counted from the most significant bit of the byte
at address 0. -/
def bitAt (f : HexFile) (n : Nat) : Option Bool := byteBit (f.toBytes.lookup ·) n

theorem addressed_cons (base : Nat) (b : UInt8) (bytes : List UInt8) :
    addressed base (b :: bytes) = (base, b) :: addressed (base + 1) bytes :=
  addressed_append base [b] bytes

theorem lookup_addressed (base : Nat) (bytes : List UInt8) (n : Nat) :
    (addressed base bytes).lookup (base + n) = bytes[n]? := by
  induction bytes generalizing base n with
  | nil => rfl
  | cons b bytes ih =>
    rw [addressed_cons]
    cases n with
    | zero => simp
    | succ n =>
      have hne : (base + (n + 1) == base) = false := by simp
      rw [List.lookup_cons, hne, show base + (n + 1) = base + 1 + n by omega]
      exact ih _ _

/-- The bits of an image follow the start of its first byte. -/
theorem bitAt_imageFile {base : Nat} {image : Array UInt8} (h : base + image.size ≤ 2 ^ (32 : Nat))
    (n : Nat) :
    (imageFile base image.toList).bitAt (base * 8 + n) = byteBit (image[·]?) n := by
  have hbyte : (base * 8 + n) / 8 = base + n / 8 := by omega
  have hbit : (base * 8 + n) % 8 = n % 8 := by omega
  rw [bitAt, byteBit, byteBit, toBytes_imageFile (by simpa using h), hbyte, hbit, lookup_addressed,
    Array.getElem?_toList]

end HexFile

/-- Bits that stay the same when they are moved on are zero: from the end on, each of them is the
one that comes to its place. -/
theorem getD_eq_false_of_shifted {bits : List Bool} {shift : Nat} (hshift : 0 < shift)
    (h : ∀ n < bits.length, bits.getD (shift + n) false = bits.getD n false) (n : Nat) :
    bits.getD n false = false := by
  induction hk : bits.length - n using Nat.strong_induction_on generalizing n with
  | h k ih =>
    by_cases hn : n < bits.length
    · rw [← h n hn]
      exact ih (bits.length - (shift + n)) (by omega) _ rfl
    · exact List.getD_eq_default _ _ (by omega)

/-- Bits are the same after they were moved on only if they were not moved, or are all zero. -/
theorem shifted_iff {bits : List Bool} {limit : Nat} (hlimit : bits.length ≤ limit) (shift : Nat) :
    (∀ n b, bits[n]? = some b →
        (if shift + n < limit then some (bits.getD (shift + n) false) else none) = some b) ↔
      shift = 0 ∨ bits = [] ∨ (∀ b ∈ bits, b = false) ∧ bits.length + shift ≤ limit := by
  constructor
  · intro h
    by_cases hshift : shift = 0
    · exact .inl hshift
    by_cases hbits : bits = []
    · exact .inr (.inl hbits)
    have hat : ∀ n < bits.length, shift + n < limit ∧
        bits.getD (shift + n) false = bits.getD n false := by
      intro n hn
      have hbit := h n _ (List.getElem?_eq_getElem hn)
      split at hbit
      · rename_i hin
        rw [List.getD_eq_getElem _ _ hn]
        exact ⟨hin, Option.some.inj hbit⟩
      · cases hbit
    have hpos := List.length_pos_iff.mpr hbits
    have hlast := (hat (bits.length - 1) (by omega)).1
    refine .inr (.inr ⟨?_, by omega⟩)
    intro b hb
    obtain ⟨n, hn, rfl⟩ := List.mem_iff_getElem.mp hb
    rw [← List.getD_eq_getElem bits false hn]
    exact getD_eq_false_of_shifted (by omega) (fun n hn => (hat n hn).2) n
  · rintro (rfl | rfl | ⟨hzero, hfits⟩) n b hb
    · obtain ⟨hn, rfl⟩ := List.getElem?_eq_some_iff.mp hb
      rw [Nat.zero_add, if_pos (by omega), List.getD_eq_getElem _ _ hn]
    · cases hb
    · obtain ⟨hn, -⟩ := List.getElem?_eq_some_iff.mp hb
      have hmoved : bits.getD (shift + n) false = false := by
        by_cases hin : shift + n < bits.length
        · rw [List.getD_eq_getElem _ _ hin]
          exact hzero _ (List.getElem_mem hin)
        · exact List.getD_eq_default _ _ (by omega)
      rw [if_pos (by omega), hmoved, hzero b (List.mem_of_getElem? hb)]

/-- The memory of a program from its first byte on: the bits of its words, and zero bits up to the
end of the last byte. -/
theorem bitAt_wordsToBytes {base : Nat} {words : List Word}
    (h : base + (wordsToBytes words true).size ≤ 2 ^ (32 : Nat)) (n : Nat) :
    (HexFile.imageFile base (wordsToBytes words true).toList).bitAt (base * 8 + n) =
      if n < 8 * (wordsToBytes words true).size
        then some ((words.flatMap Word.written).getD n false)
      else none := by
  rw [HexFile.bitAt_imageFile h]
  split
  · rename_i hn
    exact (wordsToBytes_compact words).2 n hn
  · rw [byteBit, Array.getElem?_eq_none (by omega), Option.map_none]

/-- **Words in a memory of bytes.** A program that fits into 32 bits of byte addresses has a file,
which is read back from its lines. In the memory that it describes the bits of the words follow each
other from the start of a byte on: the byte that has bit `start * wordSize`. So bit `j` of word `i`
is bit `(start + i) * wordSize + j` of the memory if the program starts with a whole byte; otherwise
only if there are no bits, or all of them are zero and the last byte has room for the shift. -/
theorem toHex_bits {p : Program} {words : List Word}
    (hwords : ∀ w ∈ words, w.geometry.size = p.wordSize)
    (himage : p.image = wordsToBytes words true)
    (hfits : p.start * p.wordSize / 8 + p.image.size ≤ 2 ^ (32 : Nat)) :
    ∃ f lines, p.toHex = .ok f ∧ f.render = .ok lines ∧ HexFile.parse lines = .ok f ∧
      (∀ i w j, words[i]? = some w → j < p.wordSize →
        f.bitAt (p.start * p.wordSize / 8 * 8 + (i * p.wordSize + j)) = some (w.writtenBit j)) ∧
      ((∀ i w j, words[i]? = some w → j < p.wordSize →
          f.bitAt ((p.start + i) * p.wordSize + j) = some (w.writtenBit j)) ↔
        8 ∣ p.start * p.wordSize ∨ words = [] ∨ (∀ w ∈ words, w.value = 0) ∧
          words.length * p.wordSize + p.start * p.wordSize % 8 ≤ 8 * p.image.size) := by
  have hbits := (wordsToBytes_compact words).1
  have hlist : p.start * p.wordSize / 8 + p.image.toList.length ≤ 2 ^ (32 : Nat) := by
    simpa using hfits
  refine ⟨_, _, HexFile.ofImage_eq_imageFile hlist, HexFile.render_imageFile _ _,
    HexFile.parse_imageFile _ _, ?_, ?_⟩ <;> rw [himage] at hfits ⊢
  · refine (Word.forall_written_iff hwords (P := fun n b => HexFile.bitAt _ (_ + n) = some b)).mp ?_
    intro n b hb
    obtain ⟨hn, rfl⟩ := List.getElem?_eq_some_iff.mp hb
    rw [bitAt_wordsToBytes hfits, if_pos (by omega), List.getD_eq_getElem _ _ hn]
  · have hplace : ∀ i j, (p.start + i) * p.wordSize + j = p.start * p.wordSize / 8 * 8 +
        (p.start * p.wordSize % 8 + (i * p.wordSize + j)) := by
      intro i j
      rw [Nat.add_mul]
      omega
    have hroom : (words.flatMap Word.written).length ≤ 8 * (wordsToBytes words true).size := by
      omega
    have hshifted := shifted_iff hroom (p.start * p.wordSize % 8)
    rw [Word.forall_written_iff hwords] at hshifted
    simp only [hplace, bitAt_wordsToBytes hfits, hshifted, Word.flatMap_written_eq_nil,
      Word.forall_mem_written_iff, Word.length_flatMap_written hwords, Nat.dvd_iff_mod_eq_zero]

/-- Words of 12 bits, least significant segment first, from word 2 on: they start with byte 3. -/
theorem toHex_bits_twelve :
    let g : Geometry := { size := 12, segment := 4, order := .little }
    let words : List Word := [⟨0xabc, g, by decide, by decide, by decide, by decide⟩,
      ⟨0x123, g, by decide, by decide, by decide, by decide⟩]
    let p : Program :=
      { items := [], image := #[0xcb, 0xa3, 0x21], start := 2, wordSize := 12, warnings := [] }
    (∀ w ∈ words, w.geometry.size = p.wordSize) ∧ p.image = wordsToBytes words true ∧
      ∃ f lines, p.toHex = .ok f ∧ f.render = .ok lines ∧ HexFile.parse lines = .ok f ∧
        f.toBytes = [(3, 0xcb), (4, 0xa3), (5, 0x21)] ∧
        ∀ i w j, words[i]? = some w → j < 12 →
          f.bitAt ((2 + i) * 12 + j) = some (w.writtenBit j) := by
  intro g words p
  have hwords : ∀ w ∈ words, w.geometry.size = p.wordSize := by decide
  have himage : p.image = wordsToBytes words true := by decide +kernel
  have hview : p.toHex.map HexFile.toBytes = .ok [(3, 0xcb), (4, 0xa3), (5, 0x21)] := by
    decide +kernel
  obtain ⟨f, lines, hf, hrender, hparse, -, hplaces⟩ := toHex_bits hwords himage (by decide)
  rw [hf] at hview
  exact ⟨hwords, himage, f, lines, hf, hrender, hparse, Except.ok.inj hview,
    hplaces.mpr (.inl (by decide))⟩

/-- A word of 4 bits at word 1 comes to the first half of byte 0, which is the place of word 0. -/
theorem toHex_moves_half_byte :
    let words : List Word := [⟨0xf, ⟨4, 4, .big⟩, by decide, by decide, by decide, by decide⟩]
    let p : Program := { items := [], image := #[0xf0], start := 1, wordSize := 4, warnings := [] }
    (∀ w ∈ words, w.geometry.size = p.wordSize) ∧ p.image = wordsToBytes words true ∧
      ∃ f, p.toHex = .ok f ∧ f.toBytes = [(0, 0xf0)] ∧ ¬∀ i w j, words[i]? = some w →
        j < p.wordSize → f.bitAt ((p.start + i) * p.wordSize + j) = some (w.writtenBit j) := by
  intro words p
  have hview : p.toHex.map (fun f => (f.toBytes, f.bitAt 4)) = .ok ([(0, 0xf0)], some false) := by
    decide +kernel
  refine ⟨by decide, by decide +kernel, ?_⟩
  obtain ⟨f, hf, hview⟩ := map_eq_ok.mp hview
  obtain ⟨hbytes, hbit⟩ := Prod.mk.inj hview
  refine ⟨f, hf, hbytes, fun h => ?_⟩
  have hplace := hbit.symm.trans (h 0 _ 0 rfl (by decide))
  exact absurd hplace (by decide)

end Retarget
