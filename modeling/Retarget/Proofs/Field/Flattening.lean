import Retarget.Proofs.Field.Pending

/-!
# Groups and their leaves

A group that is not aligned is laid out like its leaves. The value of a group is the number that the
patterns of its leaves make up side by side, as long as that number has at most 126 bits, and an
error in a group is the error of its first leaf that has one.

* `Field.Packed`: fields whose groups, at any depth, are as wide as their parts together, counted in
  32 bits;
* `Field.size_leaves`: a field of at most 126 bits is as wide as its leaves together;
* `Field.slice_bits`: the pattern of a field is that of its leaves, one after the other;
* `layoutFrom_leaves`: in the layout, a group can be replaced by its leaves.
-/

namespace Retarget

namespace Field

/-- Fields whose groups are packed from their parts, at any depth. -/
inductive Packed : Field → Prop
  | leaf (source : Source) (shape : Shape) : Packed (leaf source shape)
  | pack {parts : List Field} (h : ∀ p ∈ parts, Packed p) (aligned : Bool) (line : SourceLine) :
      Packed (pack parts aligned line)

/-- The same field, not aligned. -/
def unaligned : Field → Field
  | leaf source s => leaf source { s with aligned := false }
  | group parts s => group parts { s with aligned := false }

@[simp] theorem aligned_unaligned (f : Field) : f.unaligned.shape.aligned = false := by
  cases f <;> rfl

@[simp] theorem size_unaligned (f : Field) : f.unaligned.size = f.size := by cases f <;> rfl

/-- Where a field stands in the layout does not change its value. -/
@[simp] theorem slice_unaligned (site : Site) (f : Field) :
    f.unaligned.slice site = f.slice site := by
  cases f <;> rfl

/-- How many bits the leaves of fields have together. -/
def leafBits (leaves : List Field) : Nat := (leaves.map size).sum

theorem leafBits_append (leaves leaves' : List Field) :
    leafBits (leaves ++ leaves') = leafBits leaves + leafBits leaves' := by
  rw [leafBits, List.map_append, List.sum_append, leafBits, leafBits]

theorem packed_group {parts : List Field} {shape : Shape} (h : (group parts shape).Packed) :
    shape.size = Counter.sum (parts.map size) ∧ ∀ p ∈ parts, p.Packed := by
  generalize hf : group parts shape = f at h
  cases h with
  | leaf => cases hf
  | pack h =>
    cases hf
    exact ⟨rfl, h⟩

mutual

/-- A packed field is as wide as its leaves together, up to what the counter of their widths has
left out. -/
theorem wrap_size : ∀ f : Field, f.Packed → Counter.wrap f.size = Counter.wrap (leafBits f.leaves)
  | leaf source shape, _ => by simp [leaves, leafBits]
  | group parts shape, h => by
    obtain ⟨hsize, hparts⟩ := packed_group h
    rw [leaves, size, Field.shape, hsize, sum_size parts hparts, Counter.wrap_wrap]

theorem sum_size :
    ∀ parts : List Field, (∀ p ∈ parts, p.Packed) →
      Counter.sum (parts.map size) = Counter.wrap (leafBits (leavesOfParts parts))
  | [], _ => rfl
  | p :: rest, h => by
    obtain ⟨hp, hrest⟩ := List.forall_mem_cons.mp h
    rw [List.map_cons, Counter.sum_cons, sum_size rest hrest, ← Counter.add_wrap_left,
      wrap_size p hp, Counter.add_wrap_left, Counter.add_wrap_right, leavesOfParts, leafBits_append,
      Counter.add]

end

/-- A packed field of at most 126 bits is as wide as its leaves together. -/
theorem size_leaves {f : Field} (h : f.Packed) (hle : leafBits f.leaves ≤ 126) :
    f.size = leafBits f.leaves := by
  cases f with
  | leaf source shape => simp [leaves, leafBits]
  | group parts shape =>
    obtain ⟨hsize, hparts⟩ := packed_group h
    rw [size, Field.shape, hsize, sum_size parts hparts]
    exact Counter.wrap_of_lt (by rw [leaves] at hle; omega)

/-! ## Patterns -/

/-- The patterns of fields, or the first error among them. -/
def patternsOf (site : Site) (fields : List Field) : Except Error (List Bool) :=
  (fields.mapM (slice site)).map (·.flatMap Slice.bits)

theorem patternsOf_append (site : Site) (fields rest : List Field) :
    patternsOf site (fields ++ rest) = patternsOf site fields >>= fun bits =>
      (patternsOf site rest).map (bits ++ ·) := by
  unfold patternsOf
  rw [List.mapM_append]
  cases fields.mapM (slice site) with
  | error e => rfl
  | ok slices =>
    cases rest.mapM (slice site) with
    | error e => rfl
    | ok more => exact congrArg Except.ok List.flatMap_append

theorem wrap_ofBits {bits : List Bool} (h : bits.length ≤ 126) :
    Number.wrap (ofBits bits) = ofBits bits := by
  have hlt : ofBits bits < 2 ^ 126 :=
    lt_of_lt_of_le (ofBits_lt bits) (Nat.pow_le_pow_right (by decide) h)
  exact Number.wrap_eq_self (by omega) (by omega)

/-- The parts of a group are read one after the other; of each of them its pattern counts. -/
theorem valueOfParts_cons (site : Site) {bits : List Bool} {p : Field} {rest : List Field}
    (h : bits.length + p.size ≤ 126) :
    valueOfParts site (ofBits bits) (p :: rest) =
      (p.slice site).map Slice.bits >>= fun own =>
        valueOfParts site (ofBits (bits ++ own)) rest := by
  rw [valueOfParts, slice]
  cases p.value site with
  | error e => rfl
  | ok v =>
    rw [ok_bind, ok_bind]
    cases hs : Slice.make v p.shape.size with
    | error e =>
      rw [Field.size, hs]
      rfl
    | ok s =>
      have hjoined : ((ofBits bits : Int) * 2 ^ s.size + s.raw) = ofBits (bits ++ s.bits) := by
        rw [Slice.ofBits_append_bits]
        push_cast
        rfl
      have hsize : (bits ++ s.bits).length ≤ 126 := by
        rwa [List.length_append, Slice.length_bits, (Slice.make_eq_ok hs).2]
      rw [Field.size, hs, Error.liftAt, Except.mapError, ok_bind, hjoined, wrap_ofBits hsize]
      rfl

theorem length_of_patternsOf {site : Site} {fields : List Field} {bits : List Bool}
    (h : patternsOf site fields = .ok bits) : bits.length = leafBits fields := by
  obtain ⟨slices, hslices, rfl⟩ := map_eq_ok.mp h
  rw [length_flatMap_sliceBits, leafBits]
  have hall := mapM_eq_ok.mp hslices
  clear h hslices
  induction hall with
  | nil => rfl
  | cons hs _ ih =>
    obtain ⟨-, -, hsize⟩ := slice_eq_ok hs
    rw [List.map_cons, List.map_cons, List.sum_cons, List.sum_cons, hsize, ih]

mutual

/-- **The pattern of a field is that of its leaves**, and its error is that of the first leaf that
has one. -/
theorem slice_bits (site : Site) : ∀ f : Field, f.Packed → leafBits f.leaves ≤ 126 →
    (f.slice site).map Slice.bits = patternsOf site f.leaves
  | leaf source shape, _, _ => by
    rw [leaves, patternsOf, List.mapM_cons, List.mapM_nil]
    cases (leaf source shape).slice site with
    | error e => rfl
    | ok s => exact congrArg Except.ok (List.append_nil s.bits).symm
  | group parts shape, h, hle => by
    obtain ⟨-, hparts⟩ := packed_group h
    have hwidth : (group parts shape).size = leafBits (leavesOfParts parts) := size_leaves h hle
    rw [leaves] at hle
    have hvalue : (group parts shape).value site = _ :=
      valueOfParts_eq site parts [] hparts (by rwa [List.length_nil, Nat.zero_add])
    rw [slice, hvalue, leaves]
    cases hown : patternsOf site (leavesOfParts parts) with
    | error e => rfl
    | ok own =>
      have hlength : own.length = leafBits (leavesOfParts parts) := length_of_patternsOf hown
      obtain ⟨s, hs, hbits⟩ := Slice.exists_make_ofBits (hlength ▸ hle)
      rw [hlength, ← hwidth] at hs
      rw [Except.map, ok_bind, List.nil_append, hs, ← hbits]
      rfl

theorem valueOfParts_eq (site : Site) :
    ∀ (parts : List Field) (bits : List Bool), (∀ p ∈ parts, p.Packed) →
    bits.length + leafBits (leavesOfParts parts) ≤ 126 →
    valueOfParts site (ofBits bits) parts =
      (patternsOf site (leavesOfParts parts)).map fun own => (ofBits (bits ++ own) : Int)
  | [], bits, _, _ => congrArg (fun b => Except.ok (ofBits b : Int)) (List.append_nil bits).symm
  | p :: rest, bits, h, hsize => by
    obtain ⟨hp, hrest⟩ := List.forall_mem_cons.mp h
    rw [leavesOfParts, leafBits_append] at hsize
    have hwidth : p.size = leafBits p.leaves := size_leaves hp (by omega)
    rw [valueOfParts_cons site (by omega), slice_bits site p hp (by omega), leavesOfParts,
      patternsOf_append]
    cases hown : patternsOf site p.leaves with
    | error e => rfl
    | ok own =>
      have hlength : own.length = leafBits p.leaves := length_of_patternsOf hown
      rw [ok_bind, ok_bind,
        valueOfParts_eq site rest (bits ++ own) hrest (by rw [List.length_append]; omega)]
      cases patternsOf site (leavesOfParts rest) with
      | error e => rfl
      | ok more =>
        exact congrArg (fun b => Except.ok (ofBits b : Int)) (List.append_assoc bits own more)

end

end Field

/-! ## Layouts -/

/-- What waits for a word is counted in 32 bits. -/
theorem wordCountFrom_wrap (wordSize n : Nat) (fields : List Field) :
    wordCountFrom wordSize (Counter.wrap n) fields = wordCountFrom wordSize n fields := by
  cases fields with
  | nil => simp only [wordCountFrom, wordsFor, Counter.add_wrap_left]
  | cons f fields => simp only [wordCountFrom, wordsFor, Counter.add_wrap_left]

/-- Fields that are not aligned add their widths to what waits for a word. -/
theorem wordCountFrom_run {fields : List Field} (hrun : ∀ f ∈ fields, f.shape.aligned = false)
    (wordSize n : Nat) (rest : List Field) :
    wordCountFrom wordSize n (fields ++ rest) =
      wordCountFrom wordSize (n + Field.leafBits fields) rest := by
  induction fields generalizing n with
  | nil => rfl
  | cons f fields ih =>
    obtain ⟨hf, hfields⟩ := List.forall_mem_cons.mp hrun
    rw [List.cons_append, wordCountFrom, hf, if_neg Bool.false_ne_true, Counter.add,
      wordCountFrom_wrap, ih hfields, Nat.add_assoc]
    rfl

theorem wordCountFrom_append_congr {wordSize : Nat} {fields fields' : List Field}
    (h : ∀ n, wordCountFrom wordSize n fields = wordCountFrom wordSize n fields')
    (before : List Field) (n : Nat) :
    wordCountFrom wordSize n (before ++ fields) = wordCountFrom wordSize n (before ++ fields') := by
  induction before generalizing n with
  | nil => exact h n
  | cons f before ih =>
    rw [List.cons_append, List.cons_append, wordCountFrom, wordCountFrom, ih, ih]

section Groups

variable {f : Field} (hf : f.Packed) (haligned : f.shape.aligned = false)
include hf haligned

theorem wordCountFrom_leaves (wordSize n : Nat) (rest : List Field) :
    wordCountFrom wordSize n (f.leaves.map Field.unaligned ++ rest) =
      wordCountFrom wordSize n (f :: rest) := by
  have hbits : Field.leafBits (f.leaves.map Field.unaligned) = Field.leafBits f.leaves := by
    rw [Field.leafBits, List.map_map]
    exact congrArg List.sum (List.map_congr_left fun leaf _ => leaf.size_unaligned)
  have hpending : Counter.add n f.size = Counter.wrap (n + Field.leafBits f.leaves) := by
    rw [← Counter.add_wrap_right, Field.wrap_size f hf, Counter.add_wrap_right, Counter.add]
  rw [wordCountFrom_run (by simp), hbits, wordCountFrom, haligned,
    if_neg Bool.false_ne_true, hpending, wordCountFrom_wrap]

/-- **In a layout, a group can be replaced by its leaves.** -/
theorem layoutFrom_leaves (hsize : Field.leafBits f.leaves ≤ 126) (site : Site) (g : Geometry)
    (pending : List Slice) (rest : List Field) :
    layoutFrom site g pending (f.leaves.map Field.unaligned ++ rest) =
      layoutFrom site g pending (f :: rest) := by
  have hbits := Field.slice_bits site f hf hsize
  have hleaves : (f.leaves.map Field.unaligned).mapM (·.slice site) =
      f.leaves.mapM (·.slice site) := by
    simp only [List.mapM_map, Function.comp_def, Field.slice_unaligned]
  rw [layoutFrom_append, layoutPart_run (by simp), hleaves, layoutFrom, haligned]
  unfold Field.patternsOf at hbits
  -- Either both have the same error, or the slice of the group has the bits of the slices of the
  -- leaves.
  cases hgroup : f.slice site with
  | error e =>
    rw [hgroup] at hbits
    cases hslices : f.leaves.mapM (·.slice site) with
    | error e' =>
      rw [hslices] at hbits
      cases hbits
      rfl
    | ok slices =>
      rw [hslices] at hbits
      cases hbits
  | ok s =>
    rw [hgroup] at hbits
    obtain ⟨slices, hslices, hsame⟩ := map_eq_ok.mp hbits.symm
    have hpending : (pending ++ slices).flatMap Slice.bits =
        (pending ++ [s]).flatMap Slice.bits := by
      rw [List.flatMap_append, List.flatMap_append, hsame, List.flatMap_singleton]
    rw [hslices, ok_bind, ok_bind, ok_bind, if_neg Bool.false_ne_true, layoutFrom_congr hpending]
    cases layoutFrom site g (pending ++ [s]) rest <;> rfl

end Groups

/-- **Flattening a group changes nothing.** In any list of fields, a group that is not aligned and
whose leaves have at most 126 bits together can be replaced by its leaves, in order and not aligned:
the count of words, the words and the error are the same. -/
theorem layout_flattened (before after parts : List Field) (line : SourceLine)
    (hparts : ∀ p ∈ parts, p.Packed)
    (hsize : Field.leafBits (Field.pack parts false line).leaves ≤ 126) :
    let leaves := (Field.pack parts false line).leaves.map Field.unaligned
    (∀ wordSize, wordCount wordSize (before ++ leaves ++ after) =
      wordCount wordSize (before ++ Field.pack parts false line :: after)) ∧
    ∀ (site : Site) (g : Geometry),
      layout site g (before ++ leaves ++ after) =
        layout site g (before ++ Field.pack parts false line :: after) := by
  have hpacked : (Field.pack parts false line).Packed := .pack hparts false line
  intro leaves
  rw [List.append_assoc]
  constructor
  · intro wordSize
    exact wordCountFrom_append_congr (fun n =>
      wordCountFrom_leaves hpacked rfl wordSize n after) before 0
  · intro site g
    rw [layout, layout, layoutFrom_append, layoutFrom_append]
    refine bind_congr fun r => ?_
    rw [layoutFrom_leaves hpacked rfl hsize]

/-- Behind three bits 101 stands a group of ten bits: a one, and a group of `x` in seven bits and
11. Flattened, the fields give the same words if `x` fits, and otherwise the error about the line of
`x`. -/
theorem layout_flattened_nested :
    let g : Geometry := { size := 8, segment := 8, order := .big }
    let site (x : Int) : Site :=
      { labels := fun _ => some x, zones := default, address := 0, size := 3 }
    let line (number : Nat) : SourceLine := { file := none, name := "fields", number }
    let shape (size : Nat) (aligned : Bool) (number : Nat) : Shape :=
      { size, aligned, wordOrder := .big, segmentOrder := .big, line := line number }
    let inner := Field.pack
      [.leaf (.expression { text := "x", term := .label "x" }) (shape 7 true 3),
        .leaf (.literal (-1)) (shape 2 false 4)] true (line 5)
    let parts := [.leaf (.literal 1) (shape 1 false 2), inner]
    let leaves := (Field.pack parts false (line 6)).leaves.map Field.unaligned
    let fields := [.leaf (.literal 5) (shape 3 false 1)] ++ leaves ++
      [.leaf (.literal 0x42) (shape 8 true 7)]
    ((∀ p ∈ parts, p.Packed) ∧ Field.leafBits (Field.pack parts false (line 6)).leaves = 10) ∧
      wordCount 8 fields = 3 ∧
      (layout (site 0x55) g fields).map (·.map Word.value) = .ok [0b10111010, 0b10111000, 0x42] ∧
      (layout (site 300) g fields).map (·.map Word.value) =
        .error (Error.ofCauseAt (line 3) (BitsError.sliceOverflow 300 7)) := by
  intro g site line shape inner parts leaves fields
  have hinner : inner.Packed := by
    refine .pack (fun p hp => ?_) true (line 5)
    rcases List.mem_pair.mp hp with rfl | rfl <;> exact .leaf _ _
  have hparts : ∀ p ∈ parts, p.Packed := by
    intro p hp
    rcases List.mem_pair.mp hp with rfl | rfl
    · exact .leaf _ _
    · exact hinner
  obtain ⟨hcount, hlayout⟩ := layout_flattened [.leaf (.literal 5) (shape 3 false 1)]
    [.leaf (.literal 0x42) (shape 8 true 7)] parts (line 6) hparts (by decide)
  refine ⟨⟨hparts, by decide⟩, (hcount 8).trans (by decide), ?_, ?_⟩
  · rw [hlayout]
    decide +kernel
  · rw [hlayout]
    decide +kernel

end Retarget
