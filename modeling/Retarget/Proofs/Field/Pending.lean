import Mathlib.Data.List.DropRight
import Retarget.Proofs.Field.Layout

/-!
# Fields in the middle of a layout

Fields lead from one state of the layout to another: they complete words, and leave slices that wait
for the fields behind them.

* `layoutPart`: the words that fields complete and the slices that they leave;
* `layoutFrom_append`: fields behind others go on from what these leave;
* `layoutFrom_congr`: of the slices that wait, only the bits count;
* `layoutFrom_of_whole`: slices that fill whole words might as well have been packed before.
-/

namespace Retarget

/-- The words that fields complete, and the slices that wait for a word after them. -/
def layoutPart (site : Site) (g : Geometry) (pending : List Slice) :
    List Field → Except Error (List Word × List Slice)
  | [] => .ok ([], pending)
  | f :: rest => do
    let s ← f.slice site
    if f.shape.aligned then
      let before ← Error.lift (packRun pending g)
      let own ← Error.liftAt f.shape.line (alignedWords f.shape s g)
      let r ← layoutPart site g [] rest
      return (before ++ own ++ r.1, r.2)
    else layoutPart site g (pending ++ [s]) rest

/-- How many bits wait for a word after fields, if `bits` did before them. -/
def pendingBits (bits : Nat) : List Field → Nat
  | [] => bits
  | f :: rest => if f.shape.aligned then pendingBits 0 rest else pendingBits (bits + f.size) rest

/-- How many bits there are in the fields behind the last aligned one. -/
def trailingBits (fields : List Field) : Nat :=
  ((fields.rtakeWhile fun f => !f.shape.aligned).map Field.size).sum

section Fields

variable {site : Site} {g : Geometry} {pending : List Slice} {fields rest : List Field}

theorem pendingBits_concat (bits : Nat) (fields : List Field) (f : Field) :
    pendingBits bits (fields ++ [f]) =
      if f.shape.aligned then 0 else pendingBits bits fields + f.size := by
  induction fields generalizing bits with
  | nil => rfl
  | cons f' fields ih =>
    rw [List.cons_append, pendingBits, pendingBits]
    split
    · exact ih 0
    · exact ih (bits + f'.size)

theorem pendingBits_zero (fields : List Field) : pendingBits 0 fields = trailingBits fields := by
  induction fields using List.reverseRecOn with
  | nil => rfl
  | append_singleton fields f ih =>
    rw [pendingBits_concat, trailingBits, List.rtakeWhile_concat]
    by_cases haligned : f.shape.aligned = true
    · simp [haligned]
    · simp [haligned, ih, trailingBits]

/-- **Fields behind others** go on from what these leave. -/
theorem layoutFrom_append (site : Site) (g : Geometry) (pending : List Slice)
    (fields rest : List Field) :
    layoutFrom site g pending (fields ++ rest) = layoutPart site g pending fields >>= fun r =>
      layoutFrom site g r.2 rest >>= fun words => .ok (r.1 ++ words) := by
  induction fields generalizing pending with
  | nil =>
    rw [List.nil_append, layoutPart, ok_bind]
    cases layoutFrom site g pending rest <;> rfl
  | cons f fields ih =>
    rw [List.cons_append, layoutFrom, layoutPart, bind_assoc]
    refine bind_congr fun s => ?_
    split
    · rw [ih]
      simp only [bind_assoc, pure_bind, ok_bind, List.append_assoc]
      rfl
    · exact ih _

/-- Fields that are not aligned complete no words. -/
theorem layoutPart_run (hrun : ∀ f ∈ fields, f.shape.aligned = false) :
    layoutPart site g pending fields = fields.mapM (·.slice site) >>= fun s =>
      .ok ([], pending ++ s) := by
  induction fields generalizing pending with
  | nil => rw [layoutPart, List.mapM_nil, pure_bind, List.append_nil]
  | cons f fields ih =>
    obtain ⟨hf, hfields⟩ := List.forall_mem_cons.mp hrun
    rw [layoutPart, List.mapM_cons, bind_assoc]
    refine bind_congr fun s => ?_
    rw [hf, if_neg Bool.false_ne_true, ih hfields, bind_assoc]
    refine bind_congr fun slices => ?_
    rw [pure_bind, List.append_assoc, List.singleton_append]

/-- How many bits wait is known before any value is. -/
theorem layoutPart_pending {r : List Word × List Slice}
    (h : layoutPart site g pending fields = .ok r) :
    (r.2.map Slice.size).sum = pendingBits (pending.map Slice.size).sum fields := by
  induction fields generalizing pending r with
  | nil =>
    cases h
    rfl
  | cons f fields ih =>
    rw [layoutPart] at h
    obtain ⟨s, hs, h⟩ := bind_eq_ok.mp h
    obtain ⟨-, -, hsize⟩ := Field.slice_eq_ok hs
    rw [pendingBits]
    split at h
    · rename_i haligned
      obtain ⟨before, -, h⟩ := bind_eq_ok.mp h
      obtain ⟨own, -, h⟩ := bind_eq_ok.mp h
      obtain ⟨r', hr', h⟩ := bind_eq_ok.mp h
      cases pure_eq_ok.mp h
      rw [if_pos haligned]
      exact ih hr'
    · rename_i haligned
      rw [if_neg haligned, ih h, List.map_append, List.sum_append, List.map_singleton,
        List.sum_singleton, hsize]

/-- **Of the slices that wait, only the bits count.** -/
theorem layoutFrom_congr {pending pending' : List Slice}
    (h : pending.flatMap Slice.bits = pending'.flatMap Slice.bits) (fields : List Field) :
    layoutFrom site g pending fields = layoutFrom site g pending' fields := by
  induction fields generalizing pending pending' with
  | nil => rw [layoutFrom, layoutFrom, packRun_congr g h]
  | cons f fields ih =>
    rw [layoutFrom, layoutFrom]
    refine bind_congr fun s => ?_
    split
    · rw [packRun_congr g h]
    · exact ih (by rw [List.flatMap_append, List.flatMap_append, h])

/-- **Slices that fill whole words** might as well have been packed before. -/
theorem layoutFrom_of_whole {full : List Slice} {words : List Word}
    (hwhole : g.size ∣ (full.map Slice.size).sum) :
    layoutFrom site g (full ++ pending) fields = .ok words ↔
      ∃ before after, packRun full g = .ok before ∧ layoutFrom site g pending fields = .ok after ∧
        before ++ after = words := by
  rw [← length_flatMap_sliceBits] at hwhole
  induction fields generalizing pending words with
  | nil => simpa only [layoutFrom, Error.lift_eq_ok] using packRun_append hwhole
  | cons f fields ih =>
    constructor
    · intro h
      obtain ⟨s, hs, h⟩ := layoutFrom_cons_eq_ok.mp h
      split at h
      · rename_i haligned
        obtain ⟨before, own, after, hbefore, hown, hafter, rfl⟩ := h
        obtain ⟨first, second, hfirst, hsecond, rfl⟩ := (packRun_append hwhole).mp hbefore
        refine ⟨first, second ++ own ++ after, hfirst,
          layoutFrom_cons_eq_ok.mpr ⟨s, hs, ?_⟩, by simp⟩
        rw [if_pos haligned]
        exact ⟨second, own, after, hsecond, hown, hafter, rfl⟩
      · rename_i haligned
        rw [List.append_assoc] at h
        obtain ⟨before, after, hbefore, hafter, rfl⟩ := ih.mp h
        refine ⟨before, after, hbefore, layoutFrom_cons_eq_ok.mpr ⟨s, hs, ?_⟩, rfl⟩
        rwa [if_neg haligned]
    · rintro ⟨first, words, hfirst, hwords, rfl⟩
      obtain ⟨s, hs, hwords⟩ := layoutFrom_cons_eq_ok.mp hwords
      refine layoutFrom_cons_eq_ok.mpr ⟨s, hs, ?_⟩
      split at hwords
      · rename_i haligned
        obtain ⟨second, own, after, hsecond, hown, hafter, rfl⟩ := hwords
        rw [if_pos haligned]
        exact ⟨first ++ second, own, after,
          (packRun_append hwhole).mpr ⟨first, second, hfirst, hsecond, rfl⟩, hown, hafter, by simp⟩
      · rename_i haligned
        rw [if_neg haligned, List.append_assoc]
        exact ih.mpr ⟨first, words, hfirst, hwords, rfl⟩

end Fields

end Retarget
