import Retarget.Proofs.Field.Pending

/-!
# Steps one after the other

Several instructions that are put together into one forget where each of them ends. If each of them
fills whole words, they are laid out all the same as if they stood on their own, one after the
other.

* `layout_append`: fields behind others that fill whole words;
* `Encoding.words_concat`: the words of steps; `Encoding.wordCount_concat`: their count, as long as
  the bits of every run can be counted;
* `Field.value_congr`: the value of a field without relative and paged addresses does not depend on
  where the instruction stands.
-/

namespace Retarget

/-! ## Whole words -/

theorem ceilDiv_add {size m : Nat} (h : size ∣ m) (n : Nat) :
    (m + n) ⌈/⌉ size = m ⌈/⌉ size + n ⌈/⌉ size := by
  rcases Nat.eq_zero_or_pos size with rfl | hpos
  · simp
  · obtain ⟨k, rfl⟩ := h
    have hk : (size * k) ⌈/⌉ size = k := ceilDiv_eq_of_pad (k := k) hpos (by ring)
    rw [hk, Nat.ceilDiv_eq_add_pred_div, Nat.ceilDiv_eq_add_pred_div,
      show size * k + n + size - 1 = n + size - 1 + size * k by omega,
      Nat.add_mul_div_left _ _ hpos, Nat.add_comm]

/-- Bits that fill whole words might as well have been counted before. -/
theorem neededFrom_add {wordSize m : Nat} (h : wordSize ∣ m) (n : Nat) (fields : List Field) :
    neededFrom wordSize (m + n) fields = m ⌈/⌉ wordSize + neededFrom wordSize n fields := by
  induction fields generalizing n with
  | nil => exact ceilDiv_add h n
  | cons f fields ih =>
    rw [neededFrom, neededFrom]
    split
    · rw [ceilDiv_add h]
      omega
    · rw [Nat.add_assoc, ih]

theorem neededFrom_append {wordSize n : Nat} {fields : List Field}
    (h : wordSize ∣ pendingBits n fields) (rest : List Field) :
    neededFrom wordSize n (fields ++ rest) =
      neededFrom wordSize n fields + neededFrom wordSize 0 rest := by
  induction fields generalizing n with
  | nil => exact neededFrom_add h 0 rest
  | cons f fields ih =>
    rw [List.cons_append, neededFrom, neededFrom]
    rw [pendingBits] at h
    split at h
    · rename_i haligned
      rw [if_pos haligned, if_pos haligned, ih h]
      omega
    · rename_i haligned
      rw [if_neg haligned, if_neg haligned, ih h]

/-- Fields behind others that fill whole words are counted on their own. -/
theorem wordCount_append {wordSize : Nat} {fields rest : List Field}
    (h : wordSize ∣ trailingBits fields) (hcount : RunsCountable wordSize 0 (fields ++ rest)) :
    wordCount wordSize (fields ++ rest) = wordCount wordSize fields + wordCount wordSize rest := by
  obtain ⟨hfields, hrest⟩ := hcount.of_append
  unfold wordCount
  rw [wordCountFrom_eq hcount, wordCountFrom_eq hfields, wordCountFrom_eq hrest,
    neededFrom_append (by rwa [pendingBits_zero])]

/-- **Fields behind others that fill whole words** are laid out on their own. -/
theorem layout_append {site : Site} {g : Geometry} {fields : List Field}
    (h : g.size ∣ trailingBits fields) (rest : List Field) (words : List Word) :
    layout site g (fields ++ rest) = .ok words ↔
      ∃ before after, layout site g fields = .ok before ∧ layout site g rest = .ok after ∧
        before ++ after = words := by
  have hfields : layout site g fields = layoutPart site g [] fields >>= fun r =>
      Error.lift (packRun r.2 g) >>= fun words => .ok (r.1 ++ words) := by
    have happend := layoutFrom_append site g [] fields []
    rwa [List.append_nil] at happend
  have hwhole {r : List Word × List Slice} (hr : layoutPart site g [] fields = .ok r) :
      g.size ∣ (r.2.map Slice.size).sum := by
    rwa [layoutPart_pending hr, List.map_nil, List.sum_nil, pendingBits_zero]
  rw [hfields, layout, layoutFrom_append]
  simp only [bind_eq_ok, Error.lift_eq_ok, Except.ok.injEq]
  constructor
  · rintro ⟨r, hr, _, hrest, rfl⟩
    rw [← List.append_nil r.2] at hrest
    obtain ⟨last, after, hlast, hafter, rfl⟩ := (layoutFrom_of_whole (hwhole hr)).mp hrest
    exact ⟨r.1 ++ last, after, ⟨r, hr, last, hlast, rfl⟩, hafter, List.append_assoc _ _ _⟩
  · rintro ⟨_, after, ⟨r, hr, last, hlast, rfl⟩, hafter, rfl⟩
    refine ⟨r, hr, last ++ after, ?_, (List.append_assoc _ _ _).symm⟩
    rw [← List.append_nil r.2]
    exact (layoutFrom_of_whole (hwhole hr)).mpr ⟨last, after, hlast, hafter, rfl⟩

namespace Encoding

variable {line : SourceLine} {wordSize : Nat} {steps : List Encoding}

/-- **The size of steps that fill whole words** is the sum of their sizes. -/
theorem wordCount_concat (hsize : ∀ e ∈ steps, e.wordSize = wordSize)
    (hwhole : ∀ e ∈ steps, wordSize ∣ trailingBits e.fields)
    (hcount : (concat line steps wordSize).RunsCountable) :
    (concat line steps wordSize).wordCount = (steps.map wordCount).sum := by
  show Retarget.wordCount wordSize (steps.flatMap fields) = _
  replace hcount : Retarget.RunsCountable wordSize 0 (steps.flatMap fields) := hcount
  induction steps with
  | nil =>
    rw [List.flatMap_nil] at hcount ⊢
    rw [Retarget.wordCount, wordCountFrom_eq hcount]
    exact zero_ceilDiv wordSize
  | cons e steps ih =>
    obtain ⟨he, hsteps⟩ := List.forall_mem_cons.mp hsize
    obtain ⟨hfull, hwhole⟩ := List.forall_mem_cons.mp hwhole
    rw [List.flatMap_cons] at hcount ⊢
    rw [wordCount_append hfull hcount, ih hsteps hwhole hcount.of_append.2, List.map_cons,
      List.sum_cons, wordCount, he]

/-- **The words of steps that fill whole words** are the words of each of them, one after the
other. -/
theorem words_concat {site : Site} {g : Geometry}
    (hwhole : ∀ e ∈ steps, g.size ∣ trailingBits e.fields) (words : List Word) :
    (concat line steps wordSize).words site g = .ok words ↔
      ∃ own, List.Forall₂ (fun e w => e.words site g = .ok w) steps own ∧ own.flatten = words := by
  unfold Encoding.words
  simp only [Error.attach_eq_ok]
  show layout site g (steps.flatMap fields) = .ok words ↔ _
  induction steps generalizing words with
  | nil =>
    have hnil : layout site g [] = .ok [] := by
      rw [layout, layoutFrom, Error.lift_eq_ok, packRun]
      split <;> rfl
    simp [hnil, eq_comm]
  | cons e steps ih =>
    obtain ⟨hfull, hwhole⟩ := List.forall_mem_cons.mp hwhole
    rw [List.flatMap_cons, layout_append hfull]
    constructor
    · rintro ⟨before, after, hbefore, hafter, rfl⟩
      obtain ⟨own, hown, rfl⟩ := (ih hwhole after).mp hafter
      exact ⟨before :: own, .cons hbefore hown, rfl⟩
    · rintro ⟨_, hown, rfl⟩
      cases hown with
      | cons hbefore hown => exact ⟨_, _, hbefore, (ih hwhole _).mpr ⟨_, hown, rfl⟩, rfl⟩

end Encoding

/-! ## Where an instruction stands -/

/-- Whether a value depends on the place of the instruction. -/
def Source.isPlaced : Source → Bool
  | .relative .. => true
  | .address _ _ _ samePage => samePage
  | .literal _ | .expression _ | .bounded .. | .inZone .. | .selected .. => false

/-- No leaf has a value that depends on the place of the instruction. -/
def Unplaced (leaves : List Field) : Prop :=
  ∀ source shape, Field.leaf source shape ∈ leaves → source.isPlaced = false

theorem unplaced_append {leaves leaves' : List Field} :
    Unplaced (leaves ++ leaves') ↔ Unplaced leaves ∧ Unplaced leaves' := by
  simp only [Unplaced, List.mem_append, or_imp, forall_and]

/-- Sites with the same labels and zones; the instructions may stand at different addresses. -/
structure Site.Alike (site site' : Site) : Prop where
  labels_eq : site.labels = site'.labels
  zones_eq : site.zones = site'.zones

theorem Source.value_congr {site site' : Site} (hsite : site.Alike site') (size : Nat)
    (line : SourceLine) {source : Source} (h : source.isPlaced = false) :
    source.value site size line = source.value site' size line := by
  have hlabels := hsite.labels_eq
  have hzones := hsite.zones_eq
  cases source with
  | relative => cases h
  | address e zone low samePage =>
    cases h
    simp only [Source.value, hlabels, hzones, Bool.false_and, Bool.false_eq_true, if_false]
  | _ => simp only [Source.value, hlabels, hzones]

namespace Field

mutual

/-- **The value of a field without relative and paged addresses** does not depend on the place. -/
theorem value_congr {site site' : Site} (hsite : site.Alike site') :
    ∀ f : Field, Unplaced f.leaves → f.value site = f.value site'
  | leaf source shape, h =>
    Source.value_congr hsite shape.size shape.line (h source shape (by rw [leaves,
      List.mem_singleton]))
  | group parts _, h => valueOfParts_congr hsite parts 0 h

theorem valueOfParts_congr {site site' : Site} (hsite : site.Alike site') :
    ∀ (parts : List Field) (acc : Int), Unplaced (leavesOfParts parts) →
      valueOfParts site acc parts = valueOfParts site' acc parts
  | [], _, _ => rfl
  | p :: rest, acc, h => by
    obtain ⟨hp, hrest⟩ := unplaced_append.mp h
    rw [valueOfParts, valueOfParts, value_congr hsite p hp]
    exact bind_congr fun v => bind_congr fun s => valueOfParts_congr hsite rest _ hrest

end

end Field

end Retarget
