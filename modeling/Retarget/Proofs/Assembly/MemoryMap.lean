import Mathlib.Order.Bounds.Defs
import Retarget.Assembly.Image
import Retarget.Proofs.Assembly.Overlap

/-!
# The memory map of an image

An image is written item by item, each at once and as a whole. Address by address it is the memory
map of the program: the word of the item there that is not muted, or the fill word.

* `Image.wordAt`: the memory map of items, as a function of the address;
* `Image.wordsFrom_eq_span`: writing items one after the other gives the memory map, from the cursor
  to the last address;
* `Image.words_eq_span`: so do the words of an image;
* `Image.emits_iff`, `Image.emits_visible_iff`: going from address to address and looking for the
  item that starts there gives the same words.
-/

namespace Retarget

namespace Image

/-! ## Stretches of memory -/

/-- `count` words of a memory, from an address on. -/
def span (memory : Int → Word) (first : Int) (count : Nat) : List Word :=
  (List.range count).map fun k : Nat => memory (first + k)

@[simp] theorem length_span (memory : Int → Word) (first : Int) (count : Nat) :
    (span memory first count).length = count := by
  rw [span, List.length_map, List.length_range]

theorem getElem?_span {memory : Int → Word} {first : Int} {count k : Nat} (hk : k < count) :
    (span memory first count)[k]? = some (memory (first + k)) := by
  rw [span, List.getElem?_map, List.getElem?_range hk, Option.map_some]

theorem span_add (memory : Int → Word) (first : Int) (m n : Nat) :
    span memory first (m + n) = span memory first m ++ span memory (first + m) n := by
  rw [span, List.range_add, List.map_append, List.map_map, span, span]
  congr 1
  apply List.map_congr_left
  intro k _
  rw [Function.comp_apply, Int.natCast_add, Int.add_assoc]

theorem span_eq {memory : Int → Word} {first : Int} {count : Nat} {words : List Word}
    (hlen : words.length = count) (h : ∀ k < count, words[k]? = some (memory (first + k))) :
    span memory first count = words := by
  apply List.ext_getElem?
  intro k
  by_cases hk : k < count
  · rw [getElem?_span hk, h k hk]
  · rw [List.getElem?_eq_none (by rw [length_span]; omega), List.getElem?_eq_none (by omega)]

theorem span_congr {memory memory' : Int → Word} {first : Int} {count : Nat}
    (h : ∀ k < count, memory (first + k) = memory' (first + k)) :
    span memory first count = span memory' first count := by
  refine span_eq (length_span _ _ _) fun k hk => ?_
  rw [getElem?_span hk, h k hk]

/-! ## The word at an address -/

/-- The word at an address: that of the item there, or else the fill word. -/
def wordAt (fill : Word) (items : List CodedItem) (a : Int) : Word :=
  match items.find? fun i => i.place.Covers a with
  | some i => i.words.getD (a - i.address).toNat fill
  | none => fill

section WordAt

variable {fill : Word} {i : CodedItem} {items : List CodedItem} {a : Int}

theorem wordAt_cons_of_covers (h : i.place.Covers a) :
    wordAt fill (i :: items) a = i.words.getD (a - i.address).toNat fill := by
  rw [wordAt, List.find?_cons_of_pos (by simpa using h)]

theorem wordAt_cons_of_not_covers (h : ¬ i.place.Covers a) :
    wordAt fill (i :: items) a = wordAt fill items a := by
  rw [wordAt, List.find?_cons_of_neg (by simpa using h), wordAt]

theorem wordAt_of_forall_not_covers (h : ∀ i ∈ items, ¬ i.place.Covers a) :
    wordAt fill items a = fill := by
  rw [wordAt, List.find?_eq_none.mpr (by simpa using h)]

/-- Items that are apart do not hide each other. -/
theorem wordAt_of_covers (hapart : items.Pairwise fun a b => a.place.Apart b.place) (hi : i ∈ items)
    (h : i.place.Covers a) : wordAt fill items a = i.words.getD (a - i.address).toNat fill := by
  induction items with
  | nil => cases hi
  | cons j items ih =>
    obtain ⟨hj, hapart⟩ := List.pairwise_cons.mp hapart
    rcases List.mem_cons.mp hi with rfl | hi
    · exact wordAt_cons_of_covers h
    · rw [wordAt_cons_of_not_covers fun hcovers => hj i hi a hcovers h]
      exact ih hapart hi

end WordAt

/-! ## Writing items -/

/-- Items that can be written one after the other, from a cursor to the last address. -/
structure Writable (last cursor : Int) (items : List CodedItem) : Prop where
  length_words : ∀ i ∈ items, i.words.length = i.place.wordCount
  hasWords : ∀ i ∈ items, 0 < i.place.wordCount
  cursor_le : ∀ i ∈ items, cursor ≤ i.address
  stop_le : ∀ i ∈ items, i.stop ≤ last + 1
  stop_le_address : items.Pairwise fun a b => a.stop ≤ b.address

/-- After an item the cursor stands where it stops. -/
theorem Writable.tail {last cursor : Int} {i : CodedItem} {items : List CodedItem}
    (h : Writable last cursor (i :: items)) : Writable last i.stop items where
  length_words j hj := h.length_words j (List.mem_cons_of_mem i hj)
  hasWords j hj := h.hasWords j (List.mem_cons_of_mem i hj)
  cursor_le := (List.pairwise_cons.mp h.stop_le_address).1
  stop_le j hj := h.stop_le j (List.mem_cons_of_mem i hj)
  stop_le_address := (List.pairwise_cons.mp h.stop_le_address).2

/-- **Items write the memory map.** -/
theorem wordsFrom_eq_span {fill : Word} {last cursor : Int} {items : List CodedItem}
    (h : Writable last cursor items) : wordsFrom fill last cursor items =
      span (wordAt fill items) cursor (last + 1 - cursor).toNat := by
  induction items generalizing cursor with
  | nil =>
    rw [wordsFrom]
    refine (span_eq List.length_replicate fun k hk => ?_).symm
    rw [List.getElem?_replicate_of_lt hk, wordAt_of_forall_not_covers (by simp)]
  | cons i items ih =>
    have hlen := h.length_words i List.mem_cons_self
    have hpos := h.hasWords i List.mem_cons_self
    have hcursor := h.cursor_le i List.mem_cons_self
    have hlast := h.stop_le i List.mem_cons_self
    have hstop : i.stop = i.address + i.place.wordCount := rfl
    have hafter := h.tail.cursor_le
    have hbefore : span (wordAt fill (i :: items)) cursor (i.address - cursor).toNat =
        List.replicate (i.address - cursor).toNat fill := by
      refine span_eq List.length_replicate fun k hk => ?_
      rw [List.getElem?_replicate_of_lt hk, wordAt_of_forall_not_covers]
      intro j hj hcovers
      have hj : i.address ≤ j.address := by
        rcases List.mem_cons.mp hj with rfl | hj
        · exact Int.le_refl _
        · have := hafter j hj
          omega
      have : j.address ≤ cursor + k := hcovers.1
      omega
    have hown : span (wordAt fill (i :: items)) i.address i.place.wordCount = i.words := by
      refine span_eq hlen fun k hk => ?_
      have hcovers : i.place.Covers (i.address + k) := by
        simp only [Placement.Covers, CodedItem.address]
        omega
      rw [wordAt_cons_of_covers hcovers, add_sub_cancel_left, Int.toNat_natCast,
        List.getD_eq_getElem?_getD, List.getElem?_eq_getElem (by omega), Option.getD_some]
    have hrest : span (wordAt fill (i :: items)) i.stop (last + 1 - i.stop).toNat =
        span (wordAt fill items) i.stop (last + 1 - i.stop).toNat := by
      refine span_congr fun k _ => wordAt_cons_of_not_covers fun hcovers => ?_
      have : i.stop + k < i.stop := hcovers.2
      omega
    -- The addresses before the item, those of the item, and those after it.
    have hcount : (last + 1 - cursor).toNat =
        (i.address - cursor).toNat + i.place.wordCount + (last + 1 - i.stop).toNat := by omega
    have hfirst : cursor + (i.address - cursor).toNat = i.address := by omega
    have hnext : cursor + ((i.address - cursor).toNat + i.place.wordCount : Nat) = i.stop := by
      omega
    rw [wordsFrom, if_neg (by omega), if_neg (by omega), ih h.tail, hcount, span_add,
      span_add, hfirst, hnext, hbefore, hown, hrest]

/-! ## From address to address -/

/-- The item that starts at an address, in a map that keeps the last one of several. -/
def startAt (items : List CodedItem) (a : Int) : Option CodedItem :=
  items.reverse.find? fun i => i.address == a

/-- The words that are written from an address on: at the start of an item all its words, and the
fill word at any other address, up to the last one. -/
inductive Emits (fill : Word) (last : Int) (starts : Int → Option CodedItem) :
    Int → List Word → Prop
  | done {a : Int} (h : last < a) : Emits fill last starts a []
  | item {a : Int} {i : CodedItem} {words : List Word} (h : a ≤ last) (hi : starts a = some i)
      (hrest : Emits fill last starts (a + i.place.wordCount) words) :
        Emits fill last starts a (i.words ++ words)
  | gap {a : Int} {words : List Word} (h : a ≤ last) (hnone : starts a = none)
      (hrest : Emits fill last starts (a + 1) words) : Emits fill last starts a (fill :: words)

namespace Emits

variable {fill : Word} {last cursor : Int} {starts : Int → Option CodedItem}
  {words words' : List Word}

theorem unique (h : Emits fill last starts cursor words)
    (h' : Emits fill last starts cursor words') : words = words' := by
  induction h generalizing words' with
  | done h =>
    cases h' with
    | done => rfl
    | item h' | gap h' => omega
  | item h hi _ ih =>
    cases h' with
    | done h' => omega
    | item _ hi' hrest' =>
      cases hi.symm.trans hi'
      rw [ih hrest']
    | gap _ hnone' => cases hi.symm.trans hnone'
  | gap h hnone _ ih =>
    cases h' with
    | done h' => omega
    | item _ hi' => cases hnone.symm.trans hi'
    | gap _ _ hrest' => rw [ih hrest']

/-- Where nothing starts, fill words are written. -/
theorem gaps {count : Nat} (hstarts : ∀ k < count, starts (cursor + k) = none)
    (hlast : cursor + count ≤ last + 1) (h : Emits fill last starts (cursor + count) words) :
    Emits fill last starts cursor (List.replicate count fill ++ words) := by
  induction count generalizing cursor with
  | zero => simpa using h
  | succ count ih =>
    refine .gap (by omega) (by simpa using hstarts 0 (by omega)) (ih (fun k hk => ?_) (by omega) ?_)
    · have hnone := hstarts (k + 1) (by omega)
      rwa [show cursor + ((k + 1 : Nat) : Int) = cursor + 1 + k by omega] at hnone
    · rwa [show cursor + ((count + 1 : Nat) : Int) = cursor + 1 + count by omega] at h

end Emits

section Starts

variable {i : CodedItem} {items : List CodedItem} {a : Int}

theorem startAt_eq_none (h : ∀ i ∈ items, i.address ≠ a) : startAt items a = none := by
  rw [startAt, List.find?_eq_none]
  intro i hi
  simpa using h i (List.mem_reverse.mp hi)

theorem startAt_cons_of_ne (h : i.address ≠ a) : startAt (i :: items) a = startAt items a := by
  rw [startAt, List.reverse_cons, List.find?_append, List.find?_singleton,
    if_neg (by simpa using h), Option.or_none, startAt]

theorem startAt_cons_self (h : ∀ j ∈ items, j.address ≠ i.address) :
    startAt (i :: items) i.address = some i := by
  have hnone : items.reverse.find? (fun j => j.address == i.address) = none := startAt_eq_none h
  rw [startAt, List.reverse_cons, List.find?_append, hnone, List.find?_singleton,
    if_pos (beq_self_eq_true _)]
  rfl

end Starts

/-- Items that stand one behind the other are met at their starts. The map may have other items at
addresses before the cursor. -/
theorem emits_wordsFrom {fill : Word} {last cursor : Int} {starts : Int → Option CodedItem}
    {items : List CodedItem} (hwords : ∀ i ∈ items, 0 < i.place.wordCount)
    (hitems : items.Pairwise fun a b => a.stop ≤ b.address)
    (hstarts : ∀ a, cursor ≤ a → starts a = startAt items a) :
    Emits fill last starts cursor (wordsFrom fill last cursor items) := by
  -- After the last item, or if the next one starts behind the last address, only fill words are
  -- written.
  have hend {cursor : Int} (hnone : ∀ a, cursor ≤ a → a ≤ last → starts a = none) :
      Emits fill last starts cursor (List.replicate (last + 1 - cursor).toNat fill) := by
    rcases Int.lt_or_le last cursor with hlt | hle
    · rw [show (last + 1 - cursor).toNat = 0 by omega]
      exact .done hlt
    · rw [← List.append_nil (List.replicate _ fill)]
      exact .gaps (fun k hk => hnone (cursor + k) (by omega) (by omega)) (by omega)
        (.done (by omega))
  induction items generalizing cursor with
  | nil => exact hend fun a ha _ => hstarts a ha
  | cons i items ih =>
    obtain ⟨hfirst, hitems⟩ := List.pairwise_cons.mp hitems
    obtain ⟨hpos, hwords⟩ := List.forall_mem_cons.mp hwords
    have hstop : i.stop = i.address + i.place.wordCount := rfl
    have hlater : ∀ j ∈ items, i.address < j.address := fun j hj => by
      have := hfirst j hj
      omega
    have hearlier {a : Int} (ha : a < i.address) : startAt (i :: items) a = none := by
      refine startAt_eq_none (List.forall_mem_cons.mpr ⟨by omega, fun j hj => ?_⟩)
      have := hlater j hj
      omega
    rw [wordsFrom]
    split
    · -- The item starts before the cursor and is never met.
      refine ih hwords hitems fun a ha => ?_
      rw [hstarts a ha, startAt_cons_of_ne (by omega)]
    · split
      · refine hend fun a ha hle => ?_
        rw [hstarts a ha, hearlier (by omega)]
      · have hrest : Emits fill last starts i.stop (wordsFrom fill last i.stop items) := by
          refine ih hwords hitems fun a ha => ?_
          rw [hstarts a (by omega), startAt_cons_of_ne (by omega)]
        have hown :
            Emits fill last starts i.address (i.words ++ wordsFrom fill last i.stop items) := by
          refine .item (by omega) ?_ hrest
          rw [hstarts _ (by omega), startAt_cons_self fun j hj => (hlater j hj).ne']
        rw [List.append_assoc]
        refine Emits.gaps (fun k hk => ?_) (by omega) ?_
        · rw [hstarts _ (by omega), hearlier (by omega)]
        · rwa [show cursor + ((i.address - cursor).toNat : Int) = i.address by omega]

/-- **Going from address to address** through the map of the starts of items writes the words of the
image, and no others. -/
theorem emits_iff {fill : Word} {last cursor : Int} {items : List CodedItem} {words : List Word}
    (hwords : ∀ i ∈ items, 0 < i.place.wordCount)
    (hitems : items.Pairwise fun a b => a.stop ≤ b.address) :
    Emits fill last (startAt items) cursor words ↔ words = wordsFrom fill last cursor items := by
  have hemits : Emits fill last (startAt items) cursor (wordsFrom fill last cursor items) :=
    emits_wordsFrom hwords hitems fun a _ => rfl
  exact ⟨fun h => h.unique hemits, fun h => h ▸ hemits⟩

/-! ## The parts of an image -/

/-- The items whose words are shown. -/
def visible (items : List CodedItem) : List CodedItem :=
  items.filter fun i => i.hasWords && !i.item.muted

theorem mem_visible {items : List CodedItem} {i : CodedItem} :
    i ∈ visible items ↔ i ∈ items ∧ 0 < i.place.wordCount ∧ i.item.muted = false := by
  simp [visible, CodedItem.hasWords]

theorem lastAddress_eq_none {items : List CodedItem} (h : lastAddress items = none) :
    ∀ i ∈ items, i.place.wordCount = 0 := by
  intro i hi
  rw [lastAddress, List.max?_eq_none_iff, List.map_eq_nil_iff, List.filter_eq_nil_iff] at h
  have := h i hi
  simpa [CodedItem.hasWords] using this

/-- The last address of an image is the greatest one that an item takes up. -/
theorem lastAddress_isGreatest {items : List CodedItem} {last : Int}
    (h : lastAddress items = some last) :
    IsGreatest {a | ∃ i ∈ items, i.place.Covers a} last := by
  rw [lastAddress, List.max?_eq_some_iff] at h
  obtain ⟨hmem, hmax⟩ := h
  constructor
  · obtain ⟨i, hi, rfl⟩ := List.mem_map.mp hmem
    obtain ⟨hi, hwords⟩ := List.mem_filter.mp hi
    have hpos : 0 < i.place.wordCount := of_decide_eq_true hwords
    refine ⟨i, hi, ?_⟩
    simp only [Placement.Covers, CodedItem.stop]
    omega
  · rintro a ⟨i, hi, hcovers⟩
    have hle := hmax (i.stop - 1) (List.mem_map.mpr ⟨i, List.mem_filter.mpr
      ⟨hi, decide_eq_true hcovers.wordCount_pos⟩, rfl⟩)
    have hlt : a < i.stop := hcovers.2
    omega

theorem exists_fillWord {isa : Isa} (h : isa.wordSize ≤ 128) (fill : Nat) :
    ∃ w, fillWord isa fill = .ok w ∧ w.value = fill % 2 ^ isa.wordSize ∧
      w.geometry = isa.geometry := by
  have hlt : fill % 2 ^ isa.wordSize < 2 ^ isa.geometry.size := Nat.mod_lt _ (Nat.two_pow_pos _)
  obtain ⟨w, hw⟩ := Word.make_of_valid ⟨isa.size_pos, h, isa.segment_dvd⟩ hlt
  refine ⟨w, ?_, Word.make_eq_ok hw⟩
  rw [fillWord, Nat.min_eq_left h, hw]

/-- The words of an image are its memory map up to the last address. -/
theorem words_eq_span {isa : Isa} {options : Options} {items : List CodedItem} {fill : Word}
    {last : Nat} (hstart : options.start = none) (hstop : options.stop = none)
    (hlast : lastAddress items = some (last : Int)) (hfill : fillWord isa options.fill = .ok fill)
    (hitems : Writable last 0 (visible items)) :
    words isa options items = .ok (span (wordAt fill (visible items)) 0 (last + 1)) := by
  have hcount : ((last : Int) + 1 - 0).toNat = last + 1 := by omega
  unfold words
  rw [hstart, hstop, hlast, Option.map_none, Option.none_or, ← hcount, ← wordsFrom_eq_span hitems]
  exact bind_eq_ok.mpr ⟨fill, hfill, rfl⟩

/-- Items take up as many addresses as they have words. -/
theorem visible_length_words {env : Environment} {placed : List PlacedItem} {coded : List CodedItem}
    (hfrom : List.Forall₂ (CodedFrom env) (Job.sortItems placed) coded) :
    ∀ c ∈ visible coded, c.words.length = c.place.wordCount := by
  intro c hc
  obtain ⟨p, -, hp⟩ := exists_of_forall₂_right hfrom (mem_visible.mp hc).1
  exact hp.length_words

/-- Items that pass stop before the next ones start. -/
theorem visible_stop_le_address {env : Environment} {placed : List PlacedItem}
    {coded : List CodedItem} (hfrom : List.Forall₂ (CodedFrom env) (Job.sortItems placed) coded)
    (hcheck : checkOverlaps none coded = .ok ()) :
    (visible coded).Pairwise fun a b => a.stop ≤ b.address := by
  rw [checkOverlaps_eq_ok_iff (CodedFrom.sorted hfrom), Option.toList_none, List.nil_append,
    List.pairwise_filter] at hcheck
  rw [visible, List.pairwise_filter]
  refine hcheck.imp fun hstop ha hb => hstop ?_ ?_
  · exact (Bool.and_eq_true_iff.mp ha).1
  · exact (Bool.and_eq_true_iff.mp hb).1

/-- **The image from address to address.** The items of a program that passes are met at their
starts. -/
theorem emits_visible_iff {env : Environment} {placed : List PlacedItem} {coded : List CodedItem}
    (hfrom : List.Forall₂ (CodedFrom env) (Job.sortItems placed) coded)
    (hcheck : checkOverlaps none coded = .ok ()) {fill : Word} {last cursor : Int}
    {words : List Word} :
    Emits fill last (startAt (visible coded)) cursor words ↔
      words = wordsFrom fill last cursor (visible coded) :=
  emits_iff (fun _ hc => (mem_visible.mp hc).2.1) (visible_stop_le_address hfrom hcheck)

/-- Items in the order of their addresses that are apart can be written, each with its words. -/
theorem visible_writable {env : Environment} {placed : List PlacedItem} {coded : List CodedItem}
    {last : Int} (hfrom : List.Forall₂ (CodedFrom env) (Job.sortItems placed) coded)
    (hcheck : checkOverlaps none coded = .ok ()) (haddress : ∀ p ∈ placed, 0 ≤ p.place.address)
    (hlast : lastAddress coded = some last) : Writable last 0 (visible coded) where
  length_words := visible_length_words hfrom
  hasWords c hc := (mem_visible.mp hc).2.1
  cursor_le c hc := by
    obtain ⟨p, hmem, hp⟩ := exists_of_forall₂_right hfrom (mem_visible.mp hc).1
    have := haddress p (Job.mem_sortItems.mp hmem)
    rwa [CodedItem.address, hp.place_eq]
  stop_le c hc := by
    obtain ⟨hc, hpos, -⟩ := mem_visible.mp hc
    have hcovers : c.place.Covers (c.stop - 1) := by
      simp only [Placement.Covers, CodedItem.stop]
      omega
    have := (lastAddress_isGreatest hlast).2 ⟨c, hc, hcovers⟩
    omega
  stop_le_address := visible_stop_le_address hfrom hcheck

end Image

/-- What the memory of a program has at an address: the word of the one item there that is not
muted, or the fill word if there is no such item. -/
def ShownAt (env : Environment) (fill : Word) (placed : List PlacedItem) (a : Int) (w : Word) :
    Prop :=
  (∃ (k : Nat) (p : PlacedItem) (own : List Word) (warnings : List String),
    placed[k]? = some p ∧ p.item.muted = false ∧ p.place.Covers a ∧
      (∀ (j : Nat) (q : PlacedItem), placed[j]? = some q → q.item.muted = false →
        q.place.Covers a → j = k) ∧
      p.item.words env (some p.place) = .ok (own, warnings) ∧
      own[(a - p.place.address).toNat]? = some w) ∨
  (∀ p ∈ placed, p.item.muted = false → ¬ p.place.Covers a) ∧ w = fill

theorem Image.shownAt_wordAt {env : Environment} {placed : List PlacedItem} {coded : List CodedItem}
    (hfrom : List.Forall₂ (CodedFrom env) (Job.sortItems placed) coded)
    (hapart : coded.Pairwise fun a b => a.place.Apart b.place) (fill : Word) (a : Int) :
    ShownAt env fill placed a (wordAt fill (visible coded) a) := by
  by_cases h : ∃ c ∈ visible coded, c.place.Covers a
  · obtain ⟨c, hc, hcovers⟩ := h
    obtain ⟨hmem, -, hmuted⟩ := mem_visible.mp hc
    obtain ⟨p, hp, hcp⟩ := exists_of_forall₂_right hfrom hmem
    obtain ⟨k, hk⟩ := List.mem_iff_getElem?.mp (Job.mem_sortItems.mp hp)
    obtain ⟨warnings, hwords⟩ := hcp.words_eq
    have hlt : (a - p.place.address).toNat < c.words.length := by
      rw [hcp.length_words, hcp.place_eq]
      rw [hcp.place_eq] at hcovers
      simp only [Placement.Covers] at hcovers
      omega
    refine .inl ⟨k, p, c.words, warnings, hk, ?_, ?_, ?_, hwords, ?_⟩
    · rw [← hcp.item_eq, hmuted]
    · rwa [← hcp.place_eq]
    · intro j q hj _ hq
      by_contra hne
      rw [CodedFrom.apart_iff hfrom] at hapart
      refine not_pairwise_iff Placement.Apart.symm |>.mpr ⟨j, k, q, p, hne, hj, hk, ?_⟩ hapart
      rw [Placement.not_apart]
      exact ⟨a, hq, by rwa [← hcp.place_eq]⟩
    · have hvisible : (visible coded).Pairwise fun a b => a.place.Apart b.place := hapart.filter _
      rw [wordAt_of_covers hvisible hc hcovers, CodedItem.address, hcp.place_eq,
        List.getD_eq_getElem?_getD, List.getElem?_eq_getElem hlt, Option.getD_some]
  · refine .inr ⟨?_, wordAt_of_forall_not_covers fun c hc hcovers => h ⟨c, hc, hcovers⟩⟩
    intro p hp hmuted hcovers
    obtain ⟨c, hc, hcp⟩ := exists_of_forall₂_left hfrom (Job.mem_sortItems.mpr hp)
    rw [← hcp.place_eq] at hcovers
    rw [← hcp.item_eq] at hmuted
    exact h ⟨c, mem_visible.mpr ⟨hc, hcovers.wordCount_pos, hmuted⟩, hcovers⟩

/-- **The memory map.** Items at addresses from 0 on that pass, with neither a first nor a last
address set, give an image that has one word for each address from 0 to the last one that an item
takes up, and no words if no item takes up any. At each address it has the word of the one item
there that is not muted, or the fill word if there is none. -/
theorem words_eq_memory_map (s s' : Session) (placed : List PlacedItem) (coded : List CodedItem)
    (haddress : ∀ p ∈ placed, 0 ≤ p.place.address) (hstart : s.options.start = none)
    (hstop : s.options.stop = none)
    (hcode : (s.code (Job.sortItems placed)).result = .ok (s', coded)) :
    ∃ words, Image.words s.isa s.options coded = .ok words ∧
      ((∀ p ∈ placed, p.place.wordCount = 0) ∧ words = [] ∨
        ∃ (last : Nat) (fill : Word),
          IsGreatest {a : Int | ∃ p ∈ placed, p.place.Covers a} last ∧ words.length = last + 1 ∧
          fill.value = s.options.fill % 2 ^ s.isa.wordSize ∧ fill.geometry = s.isa.geometry ∧
          ∀ a : Nat, a ≤ last → ∃ w, words[a]? = some w ∧ ShownAt s.env fill placed a w) := by
  obtain ⟨hcoded, hcheck⟩ := Session.code_eq_ok.mp hcode
  have hfrom := Session.codeAll_codedFrom hcoded
  have hapart := (checkOverlaps_eq_ok_iff_apart (CodedFrom.sorted hfrom)).mp hcheck
  cases hlast : Image.lastAddress coded with
  | none =>
    -- No item has words.
    refine ⟨[], ?_, .inl ⟨fun p hp => ?_, rfl⟩⟩
    · rw [Image.words, hstop, hlast]
      rfl
    · obtain ⟨c, hc, hcp⟩ := exists_of_forall₂_left hfrom (Job.mem_sortItems.mpr hp)
      rw [← hcp.place_eq, Image.lastAddress_eq_none hlast c hc]
  | some last =>
    have hitems := Image.visible_writable hfrom hcheck haddress hlast
    obtain ⟨c, hc, hcovers⟩ := (Image.lastAddress_isGreatest hlast).1
    obtain ⟨p, hp, hcp⟩ := exists_of_forall₂_right hfrom hc
    -- The item at the last address shows that this address is not negative and how wide words are.
    have hnonneg : 0 ≤ last := by
      have := haddress p (Job.mem_sortItems.mp hp)
      rw [hcp.place_eq] at hcovers
      exact Int.le_trans this hcovers.1
    obtain ⟨last, rfl⟩ := Int.eq_ofNat_of_zero_le hnonneg
    obtain ⟨fill, hfill, hvalue, hgeometry⟩ :=
      Image.exists_fillWord (hcp.wordSize_le hcovers.wordCount_pos) s.options.fill
    have hgreatest := Image.lastAddress_isGreatest hlast
    simp only [CodedFrom.covers_iff hfrom] at hgreatest
    refine ⟨_, Image.words_eq_span hstart hstop hlast hfill hitems, .inr ⟨last, fill, hgreatest,
      Image.length_span _ _ _, hvalue, hgeometry, fun a ha => ?_⟩⟩
    refine ⟨_, Image.getElem?_span (Nat.lt_succ_of_le ha), ?_⟩
    rw [Int.zero_add]
    exact Image.shownAt_wordAt hfrom hapart fill a

/-- A muted filling at the end, a label there, and a filling before it: the muted one counts for the
last address and is not shown. The fill word 0x1ff is cut down to a word. -/
theorem words_eq_memory_map_muted_end :
    let isa := Isa.bare { size := 8, segment := 8, order := .big } (by decide) (by decide)
    let s : Session :=
      { isa, options := { fill := 0x1ff }, scopes := .empty, named := [], zones := default,
        symbols := default, files := [], warnings := [] }
    let item (statement : Statement) (muted : Bool) : Item :=
      { line := default, text := "", comment := "", zone := 0, scope := 0, active := [],
        compilable := true, muted, statement }
    let filling (count value : Int) : Statement := .fill (.literal count) (.literal value)
    let muted : PlacedItem :=
      { item := item (filling 2 0xcd) true, place := { address := 4, wordCount := 2 } }
    let label : PlacedItem :=
      { item := item (.label "here") false, place := { address := 4, wordCount := 0 } }
    let shown : PlacedItem :=
      { item := item (filling 3 0xab) false, place := { address := 1, wordCount := 3 } }
    let placed := [muted, label, shown]
    ∃ s' coded words, (s.code (Job.sortItems placed)).result = .ok (s', coded) ∧
      Image.words s.isa s.options coded = .ok words ∧
      words.map Word.value = [0xff, 0xab, 0xab, 0xab, 0xff, 0xff] ∧
      ∃ fill : Word, fill.value = 0xff ∧
        ∀ a : Nat, a ≤ 5 → ∃ w, words[a]? = some w ∧ ShownAt s.env fill placed a w := by
  intro isa s item filling muted label shown placed
  have hsort : Job.sortItems placed = [shown, muted, label] := by
    simp [Job.sortItems, List.mergeSort, placed, shown, muted, label]
  have h : ((s.code [shown, muted, label]).result.map fun r =>
      (Image.words s.isa s.options r.2).map fun words => words.map Word.value) =
        .ok (.ok [0xff, 0xab, 0xab, 0xab, 0xff, 0xff]) := by decide +kernel
  rw [← hsort] at h
  obtain ⟨⟨s', coded⟩, hcode, h⟩ := map_eq_ok.mp h
  obtain ⟨words, hwords, hvalues⟩ := map_eq_ok.mp h
  have hlen : words.length = 6 := by simpa using congrArg List.length hvalues
  obtain ⟨words', hwords', hcases⟩ :=
    words_eq_memory_map s s' placed coded (by decide) rfl rfl hcode
  cases hwords.symm.trans hwords'
  rcases hcases with ⟨hnone, -⟩ | ⟨last, fill, -, hlast, hfill, -, hshown⟩
  · exact absurd (hnone muted List.mem_cons_self) (by decide)
  · have hlast : last = 5 := by omega
    subst hlast
    exact ⟨s', coded, words, hcode, hwords, hvalues, fill, hfill.trans (by decide), hshown⟩

end Retarget
