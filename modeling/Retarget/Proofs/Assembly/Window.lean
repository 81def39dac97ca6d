import Mathlib.Data.List.Pairwise
import Retarget.Proofs.Assembly.MemoryMap

/-!
# Images of a window

A first and a last address may be set for an image. Items are still written as a whole, so such an
image is not quite a slice of the memory map: an item that starts before the window is left out,
also where it reaches into the window, and an item that starts in the window is written to its end.

* `Image.window`: the items that are written;
* `Image.wordsFrom_eq_window_span`: the image is their memory map, up to where the last one of them
  stops;
* `Image.wordAt_window_of_cut`, `Image.wordAt_window_of_not_cut`: where this is the memory map of
  all items.
-/

namespace Retarget

theorem CodedItem.stop_eq (i : CodedItem) : i.stop = i.address + i.place.wordCount := rfl

namespace Image

variable {fill : Word} {first last cursor stop a : Int} {items : List CodedItem}

/-! ## Which items are written -/

/-- Items before the cursor are skipped. -/
theorem wordsFrom_filter_cursor_le (h : items.Pairwise fun a b => a.stop ≤ b.address) :
    wordsFrom fill last cursor items =
      wordsFrom fill last cursor (items.filter fun i => cursor ≤ i.address) := by
  induction items with
  | nil => rfl
  | cons i items ih =>
    obtain ⟨hafter, hitems⟩ := List.pairwise_cons.mp h
    by_cases hbefore : i.address < cursor
    · rw [wordsFrom, if_pos hbefore, List.filter_cons_of_neg (by simpa using hbefore), ih hitems]
    · -- From the first item on that is written, none is skipped.
      have hall : ∀ j ∈ i :: items, cursor ≤ j.address := by
        refine List.forall_mem_cons.mpr ⟨by omega, fun j hj => ?_⟩
        have hj := hafter j hj
        rw [i.stop_eq] at hj
        omega
      rw [List.filter_eq_self.mpr (by simpa using hall)]

/-- Items after the last address are left out. -/
theorem wordsFrom_filter_le_last (h : items.Pairwise fun a b => a.stop ≤ b.address) :
    wordsFrom fill last cursor items =
      wordsFrom fill last cursor (items.filter fun i => i.address ≤ last) := by
  induction items generalizing cursor with
  | nil => rfl
  | cons i items ih =>
    obtain ⟨hafter, hitems⟩ := List.pairwise_cons.mp h
    by_cases hlast : i.address ≤ last
    · rw [List.filter_cons_of_pos (by simpa using hlast), wordsFrom, wordsFrom,
        ih hitems, ih hitems]
    · have hnone : (items.filter fun i => i.address ≤ last) = [] := by
        refine List.filter_eq_nil_iff.mpr fun j hj => ?_
        have hj := hafter j hj
        rw [i.stop_eq] at hj
        simp only [decide_eq_true_eq]
        omega
      have htail : wordsFrom fill last cursor items = wordsFrom fill last cursor [] := by
        rw [ih hitems, hnone]
      rw [List.filter_cons_of_neg (by simpa using hlast), hnone]
      by_cases hbefore : i.address < cursor
      · rw [← htail, wordsFrom, if_pos hbefore]
      · rw [wordsFrom, wordsFrom, if_neg hbefore, if_pos (by omega)]

/-- An item that starts up to the last address is written to its end: the image ends where the last
one of these items stops, if this is after the last address. -/
theorem wordsFrom_eq_of_stop (hwords : ∀ i ∈ items, 0 < i.place.wordCount)
    (hcursor : ∀ i ∈ items, cursor ≤ i.address) (hlast : ∀ i ∈ items, i.address ≤ last)
    (hitems : items.Pairwise fun a b => a.stop ≤ b.address)
    (hle : last + 1 ≤ stop) (hstops : ∀ i ∈ items, i.stop ≤ stop)
    (hstop : stop = last + 1 ∨ stop = cursor ∨ ∃ i ∈ items, stop = i.stop) :
    wordsFrom fill last cursor items = wordsFrom fill (stop - 1) cursor items := by
  induction items generalizing cursor with
  | nil =>
    rw [wordsFrom, wordsFrom]
    congr 1
    rcases hstop with rfl | rfl | ⟨i, hi, -⟩
    · omega
    · omega
    · cases hi
  | cons i items ih =>
    obtain ⟨hi_words, hwords⟩ := List.forall_mem_cons.mp hwords
    obtain ⟨hi_cursor, hcursor⟩ := List.forall_mem_cons.mp hcursor
    obtain ⟨hi_last, hlast⟩ := List.forall_mem_cons.mp hlast
    obtain ⟨hi_stop, hstops⟩ := List.forall_mem_cons.mp hstops
    obtain ⟨hafter, hitems⟩ := List.pairwise_cons.mp hitems
    have hi := i.stop_eq
    have hnext : stop = last + 1 ∨ stop = i.stop ∨ ∃ j ∈ items, stop = j.stop := by
      rcases hstop with hstop | hstop | ⟨j, hj, hstop⟩
      · exact .inl hstop
      · omega
      · rcases List.mem_cons.mp hj with rfl | hj
        · exact .inr (.inl hstop)
        · exact .inr (.inr ⟨j, hj, hstop⟩)
    rw [wordsFrom, wordsFrom, if_neg (by omega), if_neg (by omega), if_neg (by omega),
      if_neg (by omega), ih hwords hafter hlast hitems hstops hnext]

/-- The items that an image of a window shows: those that start in it. -/
def window (first last : Int) (items : List CodedItem) : List CodedItem :=
  (visible items).filter fun i => first ≤ i.address ∧ i.address ≤ last

theorem mem_window {i : CodedItem} :
    i ∈ window first last items ↔ i ∈ visible items ∧ first ≤ i.address ∧ i.address ≤ last := by
  simp [window]

/-- Where the image of a window may end: after the last address, or where an item stops that starts
in the window. -/
def stops (first last : Int) (items : List CodedItem) : Set Int :=
  {b | b = last + 1 ∨ ∃ i ∈ window first last items, b = i.stop}

theorem exists_isGreatest_stops (first last : Int) (items : List CodedItem) :
    ∃ stop, IsGreatest (stops first last items) stop := by
  let ends := (last + 1) :: (window first last items).map CodedItem.stop
  have hmem : ∀ b, b ∈ ends ↔ b ∈ stops first last items := by simp [ends, stops, eq_comm]
  cases hstop : ends.max? with
  | none => exact absurd (List.max?_eq_none_iff.mp hstop) (List.cons_ne_nil _ _)
  | some stop =>
    obtain ⟨hstop, hmax⟩ := List.max?_eq_some_iff.mp hstop
    exact ⟨stop, (hmem stop).mp hstop, fun b hb => hmax b ((hmem b).mpr hb)⟩

/-- **The image of a window is the memory map of the items that start in it.** -/
theorem wordsFrom_eq_window_span (hlen : ∀ i ∈ visible items, i.words.length = i.place.wordCount)
    (hitems : (visible items).Pairwise fun a b => a.stop ≤ b.address)
    (hstop : IsGreatest (stops first last items) stop) :
    wordsFrom fill last first (visible items) =
      span (wordAt fill (window first last items)) first (stop - first).toNat := by
  have hwindow : (window first last items).Pairwise fun a b => a.stop ≤ b.address := hitems.filter _
  have hmem : ∀ i ∈ window first last items, i ∈ visible items ∧ first ≤ i.address ∧
      i.address ≤ last :=
    fun _ => mem_window.mp
  have hwords : ∀ i ∈ window first last items, 0 < i.place.wordCount :=
    fun i hi => (mem_visible.mp (hmem i hi).1).2.1
  have hstops : ∀ i ∈ window first last items, i.stop ≤ stop :=
    fun i hi => hstop.2 (.inr ⟨i, hi, rfl⟩)
  have hwritable : Writable (stop - 1) first (window first last items) :=
    { length_words := fun i hi => hlen i (hmem i hi).1
      hasWords := hwords
      cursor_le := fun i hi => (hmem i hi).2.1
      stop_le := fun i hi => by
        have := hstops i hi
        omega
      stop_le_address := hwindow }
  have hfilter :
      (((visible items).filter fun i => first ≤ i.address).filter fun i => i.address ≤ last) =
        window first last items := by
    rw [List.filter_filter, window]
    congr 1
    funext i
    rw [Bool.and_comm, Bool.decide_and]
  calc wordsFrom fill last first (visible items)
    _ = wordsFrom fill last first (window first last items) := by
      rw [wordsFrom_filter_cursor_le hitems, wordsFrom_filter_le_last (hitems.filter _), hfilter]
    _ = wordsFrom fill (stop - 1) first (window first last items) :=
      wordsFrom_eq_of_stop hwords hwritable.cursor_le (fun i hi => (hmem i hi).2.2) hwindow
        (hstop.2 (.inl rfl)) hstops (hstop.1.imp_right .inr)
    _ = span (wordAt fill (window first last items)) first (stop - first).toNat := by
      rw [wordsFrom_eq_span hwritable, Int.sub_add_cancel]

/-! ## The window and the whole -/

/-- Items that do not cover an address do not matter for its word. -/
theorem wordAt_filter {keep : CodedItem → Bool}
    (h : ∀ i ∈ items, i.place.Covers a → keep i = true) :
    wordAt fill (items.filter keep) a = wordAt fill items a := by
  induction items with
  | nil => rfl
  | cons i items ih =>
    obtain ⟨hi, hitems⟩ := List.forall_mem_cons.mp h
    by_cases hcovers : i.place.Covers a
    · rw [List.filter_cons_of_pos (hi hcovers), wordAt_cons_of_covers hcovers,
        wordAt_cons_of_covers hcovers]
    · rw [wordAt_cons_of_not_covers hcovers, ← ih hitems, List.filter_cons]
      split
      · exact wordAt_cons_of_not_covers hcovers
      · rfl

/-- Items that are apart and cover the same address are the same. -/
theorem eq_of_covers (hapart : items.Pairwise fun a b => a.place.Apart b.place) {i j : CodedItem}
    (hi : i ∈ items) (hj : j ∈ items) (hcovers : i.place.Covers a) (hcovers' : j.place.Covers a) :
    i = j := by
  by_contra hne
  have : Std.Symm fun a b : CodedItem => a.place.Apart b.place := ⟨fun _ _ => Placement.Apart.symm⟩
  exact hapart.forall hi hj hne a hcovers hcovers'

/-- At an address of the window that an item before it reaches to there is the fill word. -/
theorem wordAt_window_of_cut (hapart : (visible items).Pairwise fun a b => a.place.Apart b.place)
    (hcut : ∃ i ∈ visible items, i.address < first ∧ i.place.Covers a) :
    wordAt fill (window first last items) a = fill := by
  obtain ⟨i, hi, hbefore, hcovers⟩ := hcut
  refine wordAt_of_forall_not_covers fun j hj hcovers' => ?_
  obtain ⟨hj, hfirst, -⟩ := mem_window.mp hj
  obtain rfl := eq_of_covers hapart hi hj hcovers hcovers'
  omega

/-- At any other address of the image there is the word of the memory map. -/
theorem wordAt_window_of_not_cut
    (hapart : (visible items).Pairwise fun a b => a.place.Apart b.place)
    (hstop : IsGreatest (stops first last items) stop) (ha : a < stop)
    (hcut : ¬ ∃ i ∈ visible items, i.address < first ∧ i.place.Covers a) :
    wordAt fill (window first last items) a = wordAt fill (visible items) a := by
  refine wordAt_filter fun i hi hcovers => decide_eq_true ⟨?_, ?_⟩
  · by_contra hbefore
    exact hcut ⟨i, hi, by omega, hcovers⟩
  · have hle : i.address ≤ a := hcovers.1
    rcases hstop.1 with rfl | ⟨j, hj, rfl⟩
    · omega
    · -- An item behind the last address would share the address with the one that ends the image.
      obtain ⟨hj, -, hlast⟩ := mem_window.mp hj
      by_contra hbehind
      have hcovers' : j.place.Covers a := by
        refine ⟨?_, ha⟩
        show j.address ≤ a
        omega
      obtain rfl := eq_of_covers hapart hi hj hcovers hcovers'
      omega

theorem fillWord_eq_error {isa : Isa} (h : 128 < isa.wordSize) (fill : Nat) :
    ∃ e, fillWord isa fill = .error e := by
  refine ⟨.wordSize isa.geometry.size, ?_⟩
  have hsize : ¬ (0 < isa.geometry.size ∧ isa.geometry.size ≤ 128) :=
    fun hsize => Nat.not_le_of_lt h hsize.2
  rw [fillWord, Word.make, dif_neg hsize]

theorem words_eq_of_bounds {isa : Isa} {options : Options} {first last : Nat}
    (hstart : options.start = some first) (hstop : options.stop = some last) :
    words isa options items =
      (fillWord isa options.fill).map fun fill => wordsFrom fill last first (visible items) := by
  unfold words
  rw [hstart, hstop]
  rfl

/-- The words of the image of a window. -/
theorem words_eq_window_span {isa : Isa} {options : Options} {first last stop : Nat}
    (hstart : options.start = some first) (hstop : options.stop = some last)
    (hfill : fillWord isa options.fill = .ok fill)
    (hlen : ∀ i ∈ visible items, i.words.length = i.place.wordCount)
    (hitems : (visible items).Pairwise fun a b => a.stop ≤ b.address)
    (hends : IsGreatest (stops first last items) stop) :
    words isa options items =
      .ok (span (wordAt fill (window first last items)) first (stop - first)) := by
  have hcount : ((stop : Int) - first).toNat = stop - first := by omega
  rw [words_eq_of_bounds hstart hstop, hfill, ← hcount,
    ← wordsFrom_eq_window_span hlen hitems hends]
  rfl

end Image

/-! ## In terms of the program -/

/-- An item that is not muted starts before an address and reaches to another one. -/
def CutAt (placed : List PlacedItem) (first a : Int) : Prop :=
  ∃ p ∈ placed, p.item.muted = false ∧ p.place.address < first ∧ p.place.Covers a

/-- Where the image of a window may end: after its last address, or behind an item that is not muted
and starts in the window. -/
def windowEnds (placed : List PlacedItem) (first last : Int) : Set Int :=
  {b | b = last + 1 ∨ ∃ p ∈ placed, p.item.muted = false ∧ 0 < p.place.wordCount ∧
    first ≤ p.place.address ∧ p.place.address ≤ last ∧ b = p.place.address + p.place.wordCount}

namespace Image

variable {env : Environment} {placed : List PlacedItem} {coded : List CodedItem}
  {first last stop a : Int}
  (hfrom : List.Forall₂ (CodedFrom env) (Job.sortItems placed) coded)

include hfrom

/-- The items that are shown, by their places. -/
theorem exists_visible_iff {P : Placement → Prop} :
    (∃ c ∈ visible coded, P c.place) ↔
      ∃ p ∈ placed, p.item.muted = false ∧ 0 < p.place.wordCount ∧ P p.place := by
  constructor
  · rintro ⟨c, hc, hP⟩
    obtain ⟨hmem, hwords, hmuted⟩ := mem_visible.mp hc
    obtain ⟨p, hp, hcp⟩ := exists_of_forall₂_right hfrom hmem
    rw [hcp.place_eq] at hwords hP
    rw [hcp.item_eq] at hmuted
    exact ⟨p, Job.mem_sortItems.mp hp, hmuted, hwords, hP⟩
  · rintro ⟨p, hp, hmuted, hwords, hP⟩
    obtain ⟨c, hc, hcp⟩ := exists_of_forall₂_left hfrom (Job.mem_sortItems.mpr hp)
    rw [← hcp.place_eq] at hwords hP
    rw [← hcp.item_eq] at hmuted
    exact ⟨c, mem_visible.mpr ⟨hc, hwords, hmuted⟩, hP⟩

theorem cutAt_iff :
    (∃ c ∈ visible coded, c.address < first ∧ c.place.Covers a) ↔ CutAt placed first a := by
  refine (exists_visible_iff hfrom (P := fun p => p.address < first ∧ p.Covers a)).trans ?_
  refine exists_congr fun p => and_congr_right fun _ => and_congr_right fun _ => ?_
  exact and_iff_right_of_imp fun h => h.2.wordCount_pos

theorem stops_eq_windowEnds : stops first last coded = windowEnds placed first last := by
  ext b
  rw [stops, windowEnds, Set.mem_ofPred_eq, Set.mem_ofPred_eq]
  refine or_congr_right ?_
  rw [← exists_visible_iff hfrom (P := fun p => first ≤ p.address ∧ p.address ≤ last ∧
    b = p.address + p.wordCount)]
  simp only [mem_window, and_assoc]
  rfl

/-- What the image of a window has at an address. -/
theorem wordAt_window_cases (hapart : coded.Pairwise fun a b => a.place.Apart b.place)
    (hends : IsGreatest (stops first last coded) stop) (ha : a < stop) (fill : Word) :
    CutAt placed first a ∧ wordAt fill (window first last coded) a = fill ∨
      ¬ CutAt placed first a ∧
        ShownAt env fill placed a (wordAt fill (window first last coded) a) := by
  by_cases hcut : CutAt placed first a
  · exact .inl ⟨hcut, wordAt_window_of_cut (hapart.filter _) ((cutAt_iff hfrom).mpr hcut)⟩
  · refine .inr ⟨hcut, ?_⟩
    rw [← cutAt_iff hfrom] at hcut
    rw [wordAt_window_of_not_cut (hapart.filter _) hends ha hcut]
    exact shownAt_wordAt hfrom hapart fill a

end Image

/-- The image of a window is a slice of the memory map exactly if no item reaches out of the window,
and those that reach into it have the fill word there. -/
theorem slice_iff {env : Environment} {placed : List PlacedItem} {words : List Word} {fill : Word}
    {first last stop : Nat} (hle : first ≤ last)
    (hstop : IsGreatest (windowEnds placed first last) stop) (hlen : words.length = stop - first)
    (hwords : ∀ a : Nat, first ≤ a → a < stop → ∃ w, words[a - first]? = some w ∧
      (CutAt placed first a ∧ w = fill ∨ ¬ CutAt placed first a ∧ ShownAt env fill placed a w)) :
    (words.length = last + 1 - first ∧ ∀ a : Nat, first ≤ a → a ≤ last →
        ∃ w, words[a - first]? = some w ∧ ShownAt env fill placed a w) ↔
      (∀ b ∈ windowEnds placed first last, b ≤ last + 1) ∧
      ∀ a : Nat, first ≤ a → a ≤ last → CutAt placed first a → ShownAt env fill placed a fill := by
  have hlast : ((last : Int) + 1) ≤ stop := hstop.2 (.inl rfl)
  constructor
  · rintro ⟨hslice, hshown⟩
    refine ⟨fun b hb => ?_, fun a hfirst ha hcut => ?_⟩
    · have := hstop.2 hb
      omega
    · obtain ⟨w, hw, hshown⟩ := hshown a hfirst ha
      obtain ⟨w', hw', hcase⟩ := hwords a hfirst (by omega)
      cases hw.symm.trans hw'
      rcases hcase with ⟨-, rfl⟩ | ⟨hnot, -⟩
      · exact hshown
      · exact absurd hcut hnot
  · rintro ⟨hends, hcuts⟩
    have hstop_le := hends stop hstop.1
    refine ⟨by omega, fun a hfirst ha => ?_⟩
    obtain ⟨w, hw, hcase⟩ := hwords a hfirst (by omega)
    refine ⟨w, hw, ?_⟩
    rcases hcase with ⟨hcut, rfl⟩ | ⟨-, hshown⟩
    · exact hcuts a hfirst ha hcut
    · exact hshown

/-- **The image of a window.** Items pass, and a first and a last address are set. Then the image
has one word for each address from the first to the last one, and further on to the end of an item
that starts in the window and reaches behind it. At each address it has the word of the memory map,
except that there is the fill word where an item reaches into the window from before it. So it is
the slice of the memory map exactly if no item reaches behind the window, and those that reach into
it have the fill word there. If words are too wide for a fill word, there is no image. -/
theorem words_of_window (s s' : Session) (placed : List PlacedItem) (coded : List CodedItem)
    (first last : Nat) (hstart : s.options.start = some first) (hstop : s.options.stop = some last)
    (hle : first ≤ last) (hcode : (s.code (Job.sortItems placed)).result = .ok (s', coded)) :
    128 < s.isa.wordSize ∧ (∃ e, Image.words s.isa s.options coded = .error e) ∨
    ∃ (words : List Word) (fill : Word) (stop : Nat),
      Image.words s.isa s.options coded = .ok words ∧
      fill.value = s.options.fill % 2 ^ s.isa.wordSize ∧ fill.geometry = s.isa.geometry ∧
      IsGreatest (windowEnds placed first last) stop ∧ words.length = stop - first ∧
      (∀ a : Nat, first ≤ a → a < stop → ∃ w, words[a - first]? = some w ∧
        (CutAt placed first a ∧ w = fill ∨ ¬ CutAt placed first a ∧
          ShownAt s.env fill placed a w)) ∧
      ((words.length = last + 1 - first ∧ ∀ a : Nat, first ≤ a → a ≤ last →
          ∃ w, words[a - first]? = some w ∧ ShownAt s.env fill placed a w) ↔
        (∀ b ∈ windowEnds placed first last, b ≤ last + 1) ∧
        ∀ a : Nat, first ≤ a → a ≤ last → CutAt placed first a →
          ShownAt s.env fill placed a fill) := by
  by_cases hwide : 128 < s.isa.wordSize
  · obtain ⟨e, he⟩ := Image.fillWord_eq_error hwide s.options.fill
    refine .inl ⟨hwide, e, ?_⟩
    rw [Image.words_eq_of_bounds hstart hstop, he]
    rfl
  · right
    obtain ⟨hcoded, hcheck⟩ := Session.code_eq_ok.mp hcode
    have hfrom := Session.codeAll_codedFrom hcoded
    have hapart := (checkOverlaps_eq_ok_iff_apart (CodedFrom.sorted hfrom)).mp hcheck
    obtain ⟨fill, hfill, hvalue, hgeometry⟩ :=
      Image.exists_fillWord (Nat.le_of_not_lt hwide) s.options.fill
    obtain ⟨stop, hends⟩ := Image.exists_isGreatest_stops first last coded
    have hlast : ((last : Int) + 1) ≤ stop := hends.2 (.inl rfl)
    obtain ⟨stop, rfl⟩ := Int.eq_ofNat_of_zero_le (Int.le_trans (by omega) hlast)
    have himage := Image.words_eq_window_span hstart hstop hfill (Image.visible_length_words hfrom)
      (Image.visible_stop_le_address hfrom hcheck) hends
    generalize hspan : Image.span (Image.wordAt fill (Image.window first last coded)) first
      (stop - first) = words at himage
    have hcount : words.length = stop - first := by rw [← hspan, Image.length_span]
    have hwords : ∀ a : Nat, first ≤ a → a < stop → ∃ w, words[a - first]? = some w ∧
        (CutAt placed first a ∧ w = fill ∨ ¬ CutAt placed first a ∧
          ShownAt s.env fill placed a w) := by
      intro a hfirst ha
      have haddress : (first : Int) + (a - first : Nat) = a := by omega
      rw [← hspan, Image.getElem?_span (by omega), haddress]
      exact ⟨_, rfl, Image.wordAt_window_cases hfrom hapart hends (by omega) fill⟩
    rw [Image.stops_eq_windowEnds hfrom] at hends
    exact ⟨words, fill, stop, himage, hvalue, hgeometry, hends, hcount, hwords,
      slice_iff hle hends hcount hwords⟩

/-- A filling that reaches into a window and one that reaches out of it: the first one is not shown
there, and the second one is shown as a whole. -/
theorem words_of_window_both_bounds :
    let isa := Isa.bare { size := 8, segment := 8, order := .big } (by decide) (by decide)
    let s : Session :=
      { isa, options := { start := some 1, stop := some 5, fill := 0xff }, scopes := .empty,
        named := [],
        zones := default, symbols := default, files := [], warnings := [] }
    let filling (count value : Int) : Item :=
      { line := default, text := "", comment := "", zone := 0, scope := 0, active := [],
        compilable := true, muted := false, statement := .fill (.literal count) (.literal value) }
    let before : PlacedItem := { item := filling 3 0xab, place := { address := 0, wordCount := 3 } }
    let behind : PlacedItem := { item := filling 3 0xcd, place := { address := 4, wordCount := 3 } }
    let placed := [behind, before]
    ∃ s' coded words fill, (s.code (Job.sortItems placed)).result = .ok (s', coded) ∧
      Image.words s.isa s.options coded = .ok words ∧ fill.value = 0xff ∧ words.length = 6 ∧
      words[1]? = some fill ∧ ∃ w, words[5]? = some w ∧ ShownAt s.env fill placed 6 w := by
  intro isa s filling before behind placed
  have hsort : Job.sortItems placed = [before, behind] := by
    simp [Job.sortItems, List.mergeSort, placed, before, behind]
  have hcode : ((s.code [before, behind]).result.map fun _ => ()) = .ok () := by decide +kernel
  rw [← hsort] at hcode
  obtain ⟨⟨s', coded⟩, hcode, -⟩ := map_eq_ok.mp hcode
  rcases words_of_window s s' placed coded 1 5 rfl rfl (by decide) hcode with ⟨hwide, -⟩ |
    ⟨words, fill, stop, hwords, hvalue, -, hends, hlen, hshown, -⟩
  · exact absurd hwide (by decide)
  · have hcut : CutAt placed (1 : Nat) (2 : Nat) :=
      ⟨before, by simp [placed], rfl, by decide, by decide⟩
    have hclear : ¬ CutAt placed (1 : Nat) (6 : Nat) := by
      simp [CutAt, Placement.Covers, placed, before, behind]
    have hbehind : (7 : Int) ∈ windowEnds placed (1 : Nat) (5 : Nat) :=
      .inr ⟨behind, by simp [placed], rfl, by decide, by decide, by decide, by decide⟩
    have hstop : stop = 7 := by
      have hle := hends.2 hbehind
      rcases hends.1 with hlast | ⟨p, hp, -, -, hfirst, -, hstop⟩
      · omega
      · simp only [placed, List.mem_cons, List.not_mem_nil, or_false] at hp
        rcases hp with rfl | rfl
        · exact Int.natCast_inj.mp hstop
        · simp [before] at hfirst
    subst hstop
    refine ⟨s', coded, words, fill, hcode, hwords, hvalue.trans (by decide), hlen, ?_, ?_⟩
    · obtain ⟨w, hw, hcase⟩ := hshown 2 (by decide) (by decide)
      rcases hcase with ⟨-, rfl⟩ | ⟨hnot, -⟩
      · exact hw
      · exact absurd hcut hnot
    · obtain ⟨w, hw, hcase⟩ := hshown 6 (by decide) (by decide)
      rcases hcase with ⟨hcut, -⟩ | ⟨-, hmap⟩
      · exact absurd hcut hclear
      · exact ⟨w, hw, hmap⟩

/-- Two data lines of two words each, and a window from inside the first one to inside the second
one: its image has three words, and the first of them is not that of the whole image. -/
theorem window_not_slice :
    let isa := Isa.bare { size := 8, segment := 8, order := .big } (by decide) (by decide)
    let s : Session :=
      { isa, options := { start := some 1, stop := some 2 }, scopes := .empty, named := [],
        zones := default, symbols := default, files := [], warnings := [] }
    let data (values : List DataItem) : Item :=
      { line := default, text := "", comment := "", zone := 0, scope := 0, active := [],
        compilable := true, muted := false,
        statement := .data { name := ".byte", valueBits := 8, items := values, packed := false } }
    let placed : List PlacedItem :=
      [{ item := data [.value (.literal 1), .value (.literal 2)],
         place := { address := 0, wordCount := 2 } },
       { item := data [.value (.literal 3), .value (.literal 4)],
         place := { address := 2, wordCount := 2 } }]
    ∃ s' coded whole words, (s.code (Job.sortItems placed)).result = .ok (s', coded) ∧
      Image.words s.isa { s.options with start := none, stop := none } coded = .ok whole ∧
      whole.map Word.value = [1, 2, 3, 4] ∧
      Image.words s.isa s.options coded = .ok words ∧ words.map Word.value = [0, 3, 4] := by
  intro isa s data placed
  have hsort : Job.sortItems placed = placed := by simp [Job.sortItems, List.mergeSort, placed]
  have h : ((s.code placed).result.map fun r =>
      ((Image.words s.isa
        { s.options with start := none, stop := none } r.2).map (·.map Word.value),
        (Image.words s.isa s.options r.2).map (·.map Word.value))) =
      .ok (.ok [1, 2, 3, 4], .ok [0, 3, 4]) := by decide +kernel
  obtain ⟨⟨s', coded⟩, hcode, h⟩ := map_eq_ok.mp h
  obtain ⟨hwhole, hwords⟩ := Prod.mk.inj h
  obtain ⟨whole, hwhole, hvalues⟩ := map_eq_ok.mp hwhole
  obtain ⟨words, hwords, hvalues'⟩ := map_eq_ok.mp hwords
  rw [hsort]
  exact ⟨s', coded, whole, words, hcode, hwhole, hvalues, hwords, hvalues'⟩

end Retarget
