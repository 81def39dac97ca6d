import Retarget.Field.Layout
import Retarget.Proofs.Bits.Packing

/-!
# Layout of fields, bit by bit

`Laid g fields words` says what the words of fields with given values are, without saying how they
are made: every maximal run of fields that are not aligned is the concatenation of their patterns,
and every aligned field is a value of its own.

* `Laid.unique`: there are no others;
* `layoutFrom_laid`: the words that `layout` makes are these;
* `exists_layoutFrom_iff`: it makes words exactly if every field has a value that fits its width,
  and no aligned field takes more than 128 bits of whole words;
* `layoutFrom_sized`: how many words there are depends on the widths only (`neededFrom`);
* `wordCountFrom_eq`: they are counted right if the bits of every run can be counted in 32 bits
  (`RunsCountable`).
-/

namespace Retarget

/-- The patterns of fields with values, side by side. -/
def patterns (fields : List (Shape × Int)) : List Bool :=
  fields.flatMap fun f => twosComplement f.2 f.1.size

/-- The words of fields with values: one maximal run or one aligned field after the other. -/
inductive Laid (g : Geometry) : List (Shape × Int) → List Word → Prop
  | nil : Laid g [] []
  /-- Fields that are not aligned, up to the end or to one that is. -/
  | run {fields rest : List (Shape × Int)} {words more : List Word} (hne : fields ≠ [])
      (hrun : ∀ f ∈ fields, f.1.aligned = false) (hrest : ∀ f ∈ rest.head?, f.1.aligned = true)
      (hwords : RunWords g (patterns fields) words) (hmore : Laid g rest more) :
      Laid g (fields ++ rest) (words ++ more)
  /-- An aligned field, whose words have its own orders. -/
  | aligned {shape : Shape} {v : Int} {rest : List (Shape × Int)} {words more : List Word}
      (haligned : shape.aligned = true)
      (hwords : WideWords { g with order := shape.segmentOrder } shape.wordOrder
        (twosComplement v shape.size) words) (hmore : Laid g rest more) :
      Laid g ((shape, v) :: rest) (words ++ more)

/-- A maximal run is what stands before the first aligned field. -/
theorem takeWhile_run {fields rest : List (Shape × Int)} (hrun : ∀ f ∈ fields, f.1.aligned = false)
    (hrest : ∀ f ∈ rest.head?, f.1.aligned = true) :
    (fields ++ rest).takeWhile (fun f => !f.1.aligned) = fields := by
  rw [List.takeWhile_append_of_pos fun f hf => by rw [hrun f hf]; rfl]
  cases rest with
  | nil => rw [List.takeWhile_nil, List.append_nil]
  | cons f rest =>
    rw [List.takeWhile_cons_of_neg (by simp [hrest f rfl]), List.append_nil]

/-- **Fields with values have one layout only.** -/
theorem Laid.unique {g : Geometry} {fields : List (Shape × Int)} {words words' : List Word}
    (h : Laid g fields words) (h' : Laid g fields words') : words = words' := by
  induction h generalizing words' with
  | nil =>
    generalize hfields : ([] : List (Shape × Int)) = fields at h'
    cases h' with
    | nil => rfl
    | run hne => exact absurd (List.append_eq_nil_iff.mp hfields.symm).1 hne
    | aligned => cases hfields
  | @run run rest words more hne hrun hrest hwords _ ih =>
    have htake := takeWhile_run hrun hrest
    generalize hfields : run ++ rest = fields at h' htake
    cases h' with
    | nil => exact absurd (List.append_eq_nil_iff.mp hfields).1 hne
    | run _ hrun' hrest' hwords' hmore' =>
      rw [takeWhile_run hrun' hrest'] at htake
      subst htake
      rw [List.append_cancel_left hfields] at ih
      rw [hwords.unique hwords', ih hmore']
    | aligned haligned =>
      rw [List.takeWhile_cons_of_neg (by simp [haligned])] at htake
      exact absurd htake.symm hne
  | @aligned shape v rest words more haligned hwords _ ih =>
    generalize hfields : (shape, v) :: rest = fields at h'
    cases h' with
    | nil => cases hfields
    | run hne' hrun' hrest' =>
      have htake := takeWhile_run hrun' hrest'
      rw [← hfields, List.takeWhile_cons_of_neg (by simp [haligned])] at htake
      exact absurd htake.symm hne'
    | aligned _ hwords' hmore' =>
      cases hfields
      rw [hwords.unique hwords', ih hmore']

/-- A run may be empty, and then it has no words. -/
theorem Laid.append_run {g : Geometry} {fields rest : List (Shape × Int)} {words more : List Word}
    (hsize : 0 < g.size) (hrun : ∀ f ∈ fields, f.1.aligned = false)
    (hrest : ∀ f ∈ rest.head?, f.1.aligned = true) (hwords : RunWords g (patterns fields) words)
    (hmore : Laid g rest more) : Laid g (fields ++ rest) (words ++ more) := by
  by_cases hne : fields = []
  · subst hne
    have hlen := hwords.length_eq hsize
    rw [patterns, List.flatMap_nil, List.length_nil, zero_ceilDiv, List.length_eq_zero_iff] at hlen
    rw [hlen]
    exact hmore
  · exact .run hne hrun hrest hwords hmore

/-! ## Aligned fields -/

/-- Bits are counted right as long as the counter does not start again. -/
theorem wordsFor_eq_ceilDiv {size n : Nat} (h : n + (size - 1) < 2 ^ 32) :
    wordsFor size n = n ⌈/⌉ size := by
  rcases Nat.eq_zero_or_pos size with rfl | hpos
  · rw [wordsFor, Nat.div_zero, ceilDiv_zero]
  · rw [wordsFor, Counter.add_of_lt h, Nat.ceilDiv_eq_add_pred_div, Nat.add_sub_assoc hpos]

/-- The words of an aligned field hold its pattern, completed on the left. -/
theorem alignedWords_wide {g : Geometry} {shape : Shape} {s : Slice} {words : List Word}
    (hsize : 0 < g.size) (hword : g.size ≤ 128) (hs : s.size = shape.size)
    (h : alignedWords shape s g = .ok words) :
    WideWords { g with order := shape.segmentOrder }.fitted shape.wordOrder s.bits words := by
  have hcount : wordsFor g.size shape.size = shape.size ⌈/⌉ g.size :=
    wordsFor_eq_ceilDiv (by have := s.size_le; omega)
  have hle := le_wholeBits hsize shape.size
  unfold alignedWords at h
  rw [hcount] at h
  simp only at h
  split at h
  · -- No words: the field has no bits.
    rename_i hzero
    cases h
    have hbits : s.bits = [] := by
      rw [← List.length_eq_zero_iff, Slice.length_bits, hs]
      rw [wholeBits, hzero] at hle
      omega
    exact ⟨[], by cases shape.wordOrder <;> rfl, by simp, by simp [hbits, wholeBits]⟩
  · obtain ⟨v, hv, h⟩ := bind_eq_ok.mp h
    cases pure_eq_ok.mp h
    obtain ⟨horder, hgeometry, hbits⟩ := Wide.ofCount_bits hv
    refine ⟨v.words, by rw [Wide.ordered, Wide.arranged, horder], hgeometry, ?_⟩
    have hwhole : shape.size ⌈/⌉ g.size * g.size = wholeBits g.size shape.size := rfl
    have hsplit : wholeBits g.size shape.size = wholeBits g.size shape.size - s.size + s.size := by
      omega
    rw [hbits, twosComplement_natCast, Slice.length_bits, hs, Geometry.size_fitted, hwhole,
      List.leftpad, Slice.length_bits, hsplit, bitsOf_add, Nat.div_eq_of_lt s.raw_lt,
      bitsOf_zero, ← hsplit, Slice.bits]

/-- An aligned field has words if they have at most 128 bits together. -/
theorem exists_alignedWords_iff {g : Geometry} (hg : g.Valid) {shape : Shape} {s : Slice}
    (hs : s.size = shape.size) :
    (∃ words, alignedWords shape s g = .ok words) ↔ wholeBits g.size shape.size ≤ 128 := by
  have hcount : wordsFor g.size shape.size = shape.size ⌈/⌉ g.size :=
    wordsFor_eq_ceilDiv (by have := s.size_le; have := hg.size_le; omega)
  have hwide := Wide.exists_ofCount_iff
    (g := { g with order := shape.segmentOrder }) hg.size_pos hg.size_le s.raw
    (shape.size ⌈/⌉ g.size) shape.wordOrder
  unfold alignedWords
  rw [hcount]
  simp only
  constructor
  · rintro ⟨words, h⟩
    split at h
    · rename_i hzero
      rw [wholeBits, hzero]
      omega
    · obtain ⟨v, hv, -⟩ := bind_eq_ok.mp h
      exact hwide.mp ⟨v, hv⟩
  · intro hle
    split
    · exact ⟨[], rfl⟩
    · obtain ⟨v, hv⟩ := hwide.mpr hle
      exact ⟨v.ordered, bind_eq_ok.mpr ⟨v, hv, rfl⟩⟩

/-! ## Lists of fields -/

theorem Field.slice_eq_ok {site : Site} {f : Field} {s : Slice} (h : f.slice site = .ok s) :
    f.value site = .ok s.value ∧ Slice.make s.value f.size = .ok s ∧ s.size = f.size := by
  obtain ⟨v, hv, h⟩ := bind_eq_ok.mp h
  have hs := Error.liftAt_eq_ok.mp h
  obtain ⟨rfl, hsize⟩ := Slice.make_eq_ok hs
  exact ⟨hv, hs, hsize⟩

theorem Field.exists_slice_iff {site : Site} {f : Field} :
    (∃ s, f.slice site = .ok s) ↔ ∃ v, f.value site = .ok v ∧ ∃ s, Slice.make v f.size = .ok s := by
  constructor
  · rintro ⟨s, h⟩
    obtain ⟨hv, hs, -⟩ := slice_eq_ok h
    exact ⟨_, hv, s, hs⟩
  · rintro ⟨v, hv, s, hs⟩
    exact ⟨s, bind_eq_ok.mpr ⟨v, hv, Error.liftAt_eq_ok.mpr hs⟩⟩

/-- What the first field contributes: it ends the run before it if it is aligned, and goes on with
it otherwise. -/
theorem layoutFrom_cons_eq_ok {site : Site} {g : Geometry} {pending : List Slice} {f : Field}
    {fields : List Field} {words : List Word} :
    layoutFrom site g pending (f :: fields) = .ok words ↔ ∃ s, f.slice site = .ok s ∧
      if f.shape.aligned then ∃ before own after, packRun pending g = .ok before ∧
        alignedWords f.shape s g = .ok own ∧ layoutFrom site g [] fields = .ok after ∧
        before ++ own ++ after = words
      else layoutFrom site g (pending ++ [s]) fields = .ok words := by
  rw [layoutFrom, bind_eq_ok]
  refine exists_congr fun s => and_congr_right fun _ => ?_
  by_cases haligned : f.shape.aligned = true
  · simp only [haligned, if_true, bind_eq_ok, pure_eq_ok, Error.lift_eq_ok, Error.liftAt_eq_ok]
    constructor
    · rintro ⟨before, hbefore, own, hown, after, hafter, rfl⟩
      exact ⟨before, own, after, hbefore, hown, hafter, rfl⟩
    · rintro ⟨before, own, after, hbefore, hown, hafter, rfl⟩
      exact ⟨before, hbefore, own, hown, after, hafter, rfl⟩
  · rw [if_neg haligned, if_neg haligned]

/-- **The words that `layout` makes** are those of the fields with their values. The slices that
wait are those of a run that has begun. -/
theorem layoutFrom_laid {site : Site} {g : Geometry} {pending : List Slice}
    {run : List (Shape × Int)} {fields : List Field} {words : List Word} (hsize : 0 < g.size)
    (hword : g.size ≤ 128) (hsegment : g.segment ∣ g.size) (hrun : ∀ f ∈ run, f.1.aligned = false)
    (hpending : pending.flatMap Slice.bits = patterns run)
    (h : layoutFrom site g pending fields = .ok words) :
    ∃ values, List.Forall₂ (fun f v => f.value site = .ok v) fields values ∧
      Laid g (run ++ (fields.map Field.shape).zip values) words := by
  induction fields generalizing pending run words with
  | nil =>
    have hwords := packRun_words hsize (Error.lift_eq_ok.mp h)
    rw [hpending] at hwords
    refine ⟨[], .nil, ?_⟩
    rw [← List.append_nil words]
    exact Laid.append_run hsize hrun (by simp) hwords .nil
  | cons f fields ih =>
    obtain ⟨s, hs, h⟩ := layoutFrom_cons_eq_ok.mp h
    obtain ⟨hv, -, hwidth⟩ := Field.slice_eq_ok hs
    split at h
    · rename_i haligned
      obtain ⟨before, own, after, hbefore, hown, hafter, rfl⟩ := h
      have hwords := packRun_words hsize hbefore
      rw [hpending] at hwords
      have hwide := alignedWords_wide hsize hword hwidth hown
      rw [Geometry.fitted_eq (by exact hsegment), Slice.bits_eq_twosComplement, hwidth] at hwide
      have hempty : ∀ f ∈ ([] : List (Shape × Int)), f.1.aligned = false := by simp
      obtain ⟨values, hvalues, hlaid⟩ := ih hempty rfl hafter
      refine ⟨s.value :: values, .cons hv hvalues, ?_⟩
      rw [List.append_assoc]
      exact Laid.append_run hsize hrun (by simpa using haligned) hwords
        (.aligned haligned hwide hlaid)
    · rename_i haligned
      have hrun' : ∀ f' ∈ run ++ [(f.shape, s.value)], f'.1.aligned = false := by
        rw [List.forall_mem_append, List.forall_mem_singleton]
        exact ⟨hrun, Bool.eq_false_of_not_eq_true haligned⟩
      have hpending' : (pending ++ [s]).flatMap Slice.bits =
          patterns (run ++ [(f.shape, s.value)]) := by
        rw [List.flatMap_append, hpending, patterns, patterns, List.flatMap_append,
          List.flatMap_singleton, List.flatMap_singleton, Slice.bits_eq_twosComplement,
          hwidth, Field.size]
      obtain ⟨values, hvalues, hlaid⟩ := ih hrun' hpending' h
      refine ⟨s.value :: values, .cons hv hvalues, ?_⟩
      rwa [List.append_assoc] at hlaid

/-- Fields have words if each of them has. -/
theorem exists_layoutFrom_iff {site : Site} {g : Geometry} (hg : g.Valid) {pending : List Slice}
    {fields : List Field} :
    (∃ words, layoutFrom site g pending fields = .ok words) ↔ ∀ f ∈ fields,
      (∃ s, f.slice site = .ok s) ∧ (f.shape.aligned = true → wholeBits g.size f.size ≤ 128) := by
  induction fields generalizing pending with
  | nil =>
    obtain ⟨words, hwords⟩ := packRun_of_valid hg pending
    simp [layoutFrom, hwords]
  | cons f fields ih =>
    rw [List.forall_mem_cons]
    constructor
    · rintro ⟨words, h⟩
      obtain ⟨s, hs, h⟩ := layoutFrom_cons_eq_ok.mp h
      split at h
      · obtain ⟨before, own, after, -, hown, hafter, -⟩ := h
        obtain ⟨-, -, hwidth⟩ := Field.slice_eq_ok hs
        exact ⟨⟨⟨s, hs⟩, fun _ => (exists_alignedWords_iff hg hwidth).mp ⟨own, hown⟩⟩,
          ih.mp ⟨after, hafter⟩⟩
      · rename_i haligned
        exact ⟨⟨⟨s, hs⟩, fun h => absurd h haligned⟩, ih.mp ⟨words, h⟩⟩
    · rintro ⟨⟨⟨s, hs⟩, hle⟩, hfields⟩
      by_cases haligned : f.shape.aligned = true
      · obtain ⟨before, hbefore⟩ := packRun_of_valid hg pending
        obtain ⟨-, -, hwidth⟩ := Field.slice_eq_ok hs
        obtain ⟨own, hown⟩ := (exists_alignedWords_iff hg hwidth).mpr (hle haligned)
        obtain ⟨after, hafter⟩ : ∃ words, layoutFrom site g [] fields = .ok words := ih.mpr hfields
        refine ⟨before ++ own ++ after, layoutFrom_cons_eq_ok.mpr ⟨s, hs, ?_⟩⟩
        rw [if_pos haligned]
        exact ⟨before, own, after, hbefore, hown, hafter, rfl⟩
      · obtain ⟨words, hwords⟩ : ∃ words, layoutFrom site g (pending ++ [s]) fields = .ok words :=
          ih.mpr hfields
        refine ⟨words, layoutFrom_cons_eq_ok.mpr ⟨s, hs, ?_⟩⟩
        rwa [if_neg haligned]

/-! ## Sizes -/

theorem length_flatMap_sliceBits (slices : List Slice) :
    (slices.flatMap Slice.bits).length = (slices.map Slice.size).sum := by
  induction slices with
  | nil => rfl
  | cons s slices ih => simp [ih]

theorem packRun_sized {g : Geometry} {slices : List Slice} {words : List Word} (hsize : 0 < g.size)
    (h : packRun slices g = .ok words) :
    Sized g.size ((slices.map Slice.size).sum ⌈/⌉ g.size) words := by
  have hsized := (packRun_words hsize h).sized hsize
  rwa [length_flatMap_sliceBits] at hsized

theorem alignedWords_sized {g : Geometry} {shape : Shape} {s : Slice} {words : List Word}
    (h : alignedWords shape s g = .ok words) : Sized g.size (wordsFor g.size shape.size) words := by
  unfold alignedWords at h
  dsimp only at h
  split at h
  · rename_i hzero
    cases h
    rw [hzero]
    exact .nil
  · obtain ⟨v, hv, h⟩ := bind_eq_ok.mp h
    cases pure_eq_ok.mp h
    exact Wide.ordered_sized (g := { g with order := shape.segmentOrder }) hv

/-- How many words fields need, after `pending` bits that wait for a word. -/
def neededFrom (wordSize pending : Nat) : List Field → Nat
  | [] => pending ⌈/⌉ wordSize
  | f :: rest =>
    if f.shape.aligned then
      pending ⌈/⌉ wordSize + wordsFor wordSize f.size + neededFrom wordSize 0 rest
    else neededFrom wordSize (pending + f.size) rest

/-- How many words there are is known before any value is. -/
theorem layoutFrom_sized {site : Site} {g : Geometry} {pending : List Slice} {fields : List Field}
    {words : List Word} (hsize : 0 < g.size) (h : layoutFrom site g pending fields = .ok words) :
    Sized g.size (neededFrom g.size (pending.map Slice.size).sum fields) words := by
  induction fields generalizing pending words with
  | nil => exact packRun_sized hsize (Error.lift_eq_ok.mp h)
  | cons f fields ih =>
    obtain ⟨s, hs, h⟩ := layoutFrom_cons_eq_ok.mp h
    obtain ⟨-, -, hwidth⟩ := Field.slice_eq_ok hs
    rw [neededFrom]
    split at h
    · rename_i haligned
      obtain ⟨before, own, after, hbefore, hown, hafter, rfl⟩ := h
      rw [if_pos haligned]
      exact ((packRun_sized hsize hbefore).append (alignedWords_sized hown)).append (ih hafter)
    · rename_i haligned
      have hsized := ih h
      rw [if_neg haligned]
      rwa [List.map_append, List.sum_append, List.map_singleton, List.sum_singleton,
        hwidth] at hsized

/-- Fields whose runs can be counted, after `pending` bits that wait for a word: each of them has
less than `2 ^ 32` bits, also with those that may be missing to its last word. -/
def RunsCountable (wordSize pending : Nat) : List Field → Prop
  | [] => pending + (wordSize - 1) < 2 ^ 32
  | f :: rest =>
    if f.shape.aligned then pending + (wordSize - 1) < 2 ^ 32 ∧ RunsCountable wordSize 0 rest
    else RunsCountable wordSize (pending + f.size) rest

namespace RunsCountable

variable {wordSize m n : Nat} {fields rest : List Field}

/-- Fields that are short enough together have runs that are. -/
theorem of_sum_lt (h : n + (fields.map Field.size).sum + (wordSize - 1) < 2 ^ 32) :
    RunsCountable wordSize n fields := by
  induction fields generalizing n with
  | nil => simpa [RunsCountable] using h
  | cons f fields ih =>
    rw [List.map_cons, List.sum_cons] at h
    rw [RunsCountable]
    split
    · exact ⟨by omega, ih (by omega)⟩
    · exact ih (by omega)

theorem pending_lt (h : RunsCountable wordSize n fields) : n + (wordSize - 1) < 2 ^ 32 := by
  induction fields generalizing n with
  | nil => exact h
  | cons f fields ih =>
    rw [RunsCountable] at h
    split at h
    · exact h.1
    · have := ih h
      omega

theorem mono (hle : m ≤ n) (h : RunsCountable wordSize n fields) :
    RunsCountable wordSize m fields := by
  induction fields generalizing m n with
  | nil =>
    rw [RunsCountable] at h ⊢
    omega
  | cons f fields ih =>
    rw [RunsCountable] at h ⊢
    split at h
    · rename_i haligned
      rw [if_pos haligned]
      exact ⟨by omega, h.2⟩
    · rename_i haligned
      rw [if_neg haligned]
      exact ih (by omega) h

/-- Fields one after the other can only be counted if each of them can. -/
theorem of_append (h : RunsCountable wordSize n (fields ++ rest)) :
    RunsCountable wordSize n fields ∧ RunsCountable wordSize 0 rest := by
  induction fields generalizing n with
  | nil => exact ⟨h.pending_lt, h.mono (Nat.zero_le n)⟩
  | cons f fields ih =>
    rw [List.cons_append, RunsCountable] at h
    rw [RunsCountable]
    split at h
    · rename_i haligned
      rw [if_pos haligned]
      exact ⟨⟨h.1, (ih h.2).1⟩, (ih h.2).2⟩
    · rename_i haligned
      rw [if_neg haligned]
      exact ih h

end RunsCountable

/-- An instruction whose runs of bits can be counted. -/
def Encoding.RunsCountable (e : Encoding) : Prop := Retarget.RunsCountable e.wordSize 0 e.fields

/-- **The words that are counted** are those that are needed, if the runs can be counted. -/
theorem wordCountFrom_eq {wordSize n : Nat} {fields : List Field}
    (h : RunsCountable wordSize n fields) :
    wordCountFrom wordSize n fields = neededFrom wordSize n fields := by
  induction fields generalizing n with
  | nil => exact wordsFor_eq_ceilDiv h
  | cons f fields ih =>
    rw [RunsCountable] at h
    rw [wordCountFrom, neededFrom]
    split at h
    · rename_i haligned
      rw [if_pos haligned, if_pos haligned, wordsFor_eq_ceilDiv h.1, ih h.2]
    · rename_i haligned
      rw [if_neg haligned, if_neg haligned, Counter.add_of_lt, ih h]
      have := h.pending_lt
      omega

/-! ## The layout of an instruction -/

/-- **Exact layout.** With words of 1 to 128 bits and segments that divide them, fields are laid out
exactly if each of them has a value that its width takes and no aligned one needs more than 128 bits
of whole words; and the words are then those of `Laid`, and no others. -/
theorem exists_layout_iff_and_laid (site : Site) (g : Geometry) (fields : List Field)
    (hpos : 1 ≤ g.size) (hle : g.size ≤ 128) (hsegment : g.segment ∣ g.size) :
    ((∃ words, layout site g fields = .ok words) ↔ ∀ f ∈ fields,
      (∃ v, f.value site = .ok v ∧ ∃ s, Slice.make v f.size = .ok s) ∧
        (f.shape.aligned = true → f.size ⌈/⌉ g.size * g.size ≤ 128)) ∧
    ∀ words, layout site g fields = .ok words → ∃ values,
      List.Forall₂ (fun f v => f.value site = .ok v) fields values ∧
        ∀ words', Laid g ((fields.map Field.shape).zip values) words' ↔ words' = words := by
  constructor
  · rw [layout, exists_layoutFrom_iff ⟨hpos, hle, hsegment⟩]
    simp only [Field.exists_slice_iff, wholeBits]
  · intro words h
    have hempty : ∀ f ∈ ([] : List (Shape × Int)), f.1.aligned = false := by simp
    obtain ⟨values, hvalues, hlaid⟩ := layoutFrom_laid hpos hle hsegment hempty rfl h
    exact ⟨values, hvalues, fun words' => ⟨fun h' => h'.unique hlaid, fun h' => h' ▸ hlaid⟩⟩

/-- Fields of 3 and 7 bits that straddle a word, one of 13 bits in two words of its own, and a group
of one bit: 101 1111111, 0x1234 with its low word first, and 1. -/
theorem exists_layout_iff_and_laid_straddling :
    let site : Site := { labels := fun _ => none, zones := default, address := 0, size := 5 }
    let g : Geometry := { size := 8, segment := 4, order := .big }
    let shape (size : Nat) (aligned : Bool) : Shape :=
      { size, aligned, wordOrder := .little, segmentOrder := .little, line := default }
    let fields : List Field :=
      [.leaf (.literal 5) (shape 3 false), .leaf (.literal (-1)) (shape 7 false),
        .leaf (.literal 0x1234) (shape 13 true),
        .group [.leaf (.literal 1) (shape 1 false)] (shape 1 false)]
    ∃ words, layout site g fields = .ok words ∧
      words.map Word.value = [0b10111111, 0b11000000, 0x34, 0x12, 0b10000000] ∧
      Laid g ((fields.map Field.shape).zip [5, -1, 0x1234, 1]) words := by
  intro site g shape fields
  have hmade : ((layout site g fields).map fun words => words.map Word.value) =
      .ok [0b10111111, 0b11000000, 0x34, 0x12, 0b10000000] := by decide +kernel
  have hvalues : fields.mapM (fun f => f.value site) = .ok [5, -1, 0x1234, 1] := by decide +kernel
  obtain ⟨words, hwords, hmade⟩ := map_eq_ok.mp hmade
  obtain ⟨values, hforall, hlaid⟩ :=
    (exists_layout_iff_and_laid site g fields (by decide) (by decide) (by decide)).2 words hwords
  cases hvalues.symm.trans (mapM_eq_ok.mpr hforall)
  exact ⟨words, hwords, hmade, (hlaid words).mpr rfl⟩

end Retarget
