import Retarget.Proofs.Assembly.Passes

/-!
# Overlaps

The second pass compares an item with the last one before it that has words. As the items are in the
order of their addresses, this finds every pair that shares an address.

* `Placement.apart_iff_of_le`: when places in order share no address;
* `checkOverlaps_eq_ok_iff`: what the comparison of neighbours says about all pairs;
* `exists_code_iff`: the pass succeeds exactly if no two items share an address.
-/

namespace Retarget

namespace Placement

/-- The place takes up an address. -/
def Covers (p : Placement) (a : Int) : Prop := p.address ≤ a ∧ a < p.address + p.wordCount

instance (p : Placement) (a : Int) : Decidable (p.Covers a) := inferInstanceAs (Decidable (_ ∧ _))

theorem Covers.wordCount_pos {p : Placement} {a : Int} (h : p.Covers a) : 0 < p.wordCount := by
  simp only [Covers] at h
  omega

/-- The places share no address. -/
def Apart (p q : Placement) : Prop := ∀ a, p.Covers a → ¬ q.Covers a

theorem Apart.symm {p q : Placement} (h : p.Apart q) : q.Apart p := fun a hq hp => h a hp hq

theorem not_apart {p q : Placement} : ¬ p.Apart q ↔ ∃ a, p.Covers a ∧ q.Covers a := by
  simp only [Apart, not_forall, not_not, exists_prop]

/-- If two places in order share an address, then they share the first one of the second place. -/
theorem apart_iff_of_le {p q : Placement} (h : p.address ≤ q.address) :
    p.Apart q ↔ (0 < p.wordCount → 0 < q.wordCount → p.address + p.wordCount ≤ q.address) := by
  simp only [Apart, Covers]
  constructor
  · intro hapart hp hq
    have := hapart q.address
    omega
  · intro hstop a hp hq
    have := hstop (by omega) (by omega)
    omega

end Placement

/-! ## Neighbours -/

/-- **Neighbours are enough.** If items are in the order of their addresses, and none of those with
words starts before the one before it ends, then all of them are apart. -/
theorem checkOverlaps_eq_ok_iff {previous : Option CodedItem} {items : List CodedItem}
    (hsorted : items.Pairwise fun a b => a.address ≤ b.address) :
    checkOverlaps previous items = .ok () ↔
      (previous.toList ++ items.filter CodedItem.hasWords).Pairwise fun a b => a.stop ≤
        b.address := by
  induction items generalizing previous with
  | nil =>
    rw [checkOverlaps, List.filter_nil, List.append_nil]
    cases previous <;> simp
  | cons i items ih =>
    obtain ⟨hle, hsorted⟩ := List.pairwise_cons.mp hsorted
    rw [checkOverlaps, List.filter_cons]
    cases hwords : i.hasWords with
    | false => exact ih hsorted
    | true =>
      rw [if_neg (by decide), if_pos rfl]
      cases previous with
      | none => exact ih hsorted
      | some p =>
        rw [Option.filter_some]
        by_cases hlt : i.address < p.stop
        · rw [if_pos (decide_eq_true hlt), Option.toList_some, List.singleton_append,
            List.pairwise_cons]
          constructor
          · intro h
            cases h
          · rintro ⟨hstop, -⟩
            have := hstop i List.mem_cons_self
            omega
        · rw [if_neg (by simpa using hlt), Option.toList_some, List.singleton_append,
            List.pairwise_cons]
          -- Later items start after `i` does, and so after `p` ends.
          have hafter : ∀ b ∈ i :: items.filter CodedItem.hasWords, p.stop ≤ b.address := by
            intro b hb
            rcases List.mem_cons.mp hb with rfl | hb
            · omega
            · have := hle b (List.mem_filter.mp hb).1
              omega
          rw [and_iff_right hafter]
          exact ih hsorted

theorem checkOverlaps_failsOnly (previous : Option CodedItem) (items : List CodedItem) :
    FailsOnly (fun c => c.kind = .overlap) (checkOverlaps previous items) := by
  induction items generalizing previous with
  | nil => exact .ok ()
  | cons i items ih =>
    rw [checkOverlaps]
    split
    · exact ih previous
    · split
      · exact .failAt rfl
      · exact ih (some i)

theorem checkOverlaps_eq_ok_iff_apart {items : List CodedItem}
    (hsorted : items.Pairwise fun a b => a.address ≤ b.address) :
    checkOverlaps none items = .ok () ↔ items.Pairwise fun a b => a.place.Apart b.place := by
  rw [checkOverlaps_eq_ok_iff hsorted, Option.toList_none, List.nil_append, List.pairwise_filter]
  constructor
  · refine hsorted.imp₂ fun a b hle hstop => ?_
    rw [Placement.apart_iff_of_le hle]
    exact fun ha hb => hstop (decide_eq_true ha) (decide_eq_true hb)
  · refine hsorted.imp₂ fun a b hle hapart ha hb => ?_
    exact (Placement.apart_iff_of_le hle).mp hapart (of_decide_eq_true ha) (of_decide_eq_true hb)

/-! ## All pairs -/

theorem CodedFrom.map_place {env : Environment} {placed : List PlacedItem} {coded : List CodedItem}
    (h : List.Forall₂ (CodedFrom env) placed coded) :
    coded.map CodedItem.place = placed.map PlacedItem.place := by
  induction h with
  | nil => rfl
  | cons hcoded _ ih => rw [List.map_cons, List.map_cons, hcoded.place_eq, ih]

/-- Coding keeps the order of items. -/
theorem CodedFrom.sorted {env : Environment} {placed : List PlacedItem} {coded : List CodedItem}
    (h : List.Forall₂ (CodedFrom env) (Job.sortItems placed) coded) :
    coded.Pairwise fun a b => a.address ≤ b.address := by
  show coded.Pairwise fun a b => a.place.address ≤ b.place.address
  rw [← List.pairwise_map (f := CodedItem.place) (R := fun p q => p.address ≤ q.address),
    CodedFrom.map_place h, List.pairwise_map]
  exact Job.sortItems_sorted placed

/-- Coding keeps the addresses that items take up. -/
theorem CodedFrom.covers_iff {env : Environment} {placed : List PlacedItem} {coded : List CodedItem}
    (h : List.Forall₂ (CodedFrom env) (Job.sortItems placed) coded) {a : Int} :
    (∃ c ∈ coded, c.place.Covers a) ↔ ∃ p ∈ placed, p.place.Covers a := by
  constructor
  · rintro ⟨c, hc, hcovers⟩
    obtain ⟨p, hp, hcp⟩ := exists_of_forall₂_right h hc
    exact ⟨p, Job.mem_sortItems.mp hp, hcp.place_eq ▸ hcovers⟩
  · rintro ⟨p, hp, hcovers⟩
    obtain ⟨c, hc, hcp⟩ := exists_of_forall₂_left h (Job.mem_sortItems.mpr hp)
    exact ⟨c, hc, hcp.place_eq ▸ hcovers⟩

/-- Whether items are apart depends neither on their order nor on their words. -/
theorem CodedFrom.apart_iff {env : Environment} {placed : List PlacedItem} {coded : List CodedItem}
    (h : List.Forall₂ (CodedFrom env) (Job.sortItems placed) coded) :
    (coded.Pairwise fun a b => a.place.Apart b.place) ↔
      placed.Pairwise fun p q => p.place.Apart q.place := by
  rw [← (Job.sortItems_perm placed).pairwise_iff Placement.Apart.symm,
    ← List.pairwise_map (f := CodedItem.place) (R := Placement.Apart),
    ← List.pairwise_map (f := PlacedItem.place) (R := Placement.Apart), CodedFrom.map_place h]

namespace Session

variable {s : Session} {placed : List PlacedItem}

theorem exists_codeAll_sortItems (hcode : ∀ p ∈ placed, s.CanCode p) :
    ∃ result, (s.codeAll (Job.sortItems placed)).result = .ok result :=
  exists_codeAll_iff.mpr fun p hp => hcode p (Job.mem_sortItems.mp hp)

/-- Items that can be coded pass if no two of them share an address. -/
theorem exists_code_iff (hcode : ∀ p ∈ placed, s.CanCode p) :
    (∃ result, (s.code (Job.sortItems placed)).result = .ok result) ↔
      placed.Pairwise fun p q => p.place.Apart q.place := by
  obtain ⟨⟨s', coded⟩, hcoded⟩ := exists_codeAll_sortItems hcode
  have hfrom := codeAll_codedFrom hcoded
  rw [← CodedFrom.apart_iff hfrom, ← checkOverlaps_eq_ok_iff_apart (CodedFrom.sorted hfrom)]
  constructor
  · rintro ⟨⟨s'', coded'⟩, h⟩
    obtain ⟨hcoded', hcheck⟩ := code_eq_ok.mp h
    cases hcoded.symm.trans hcoded'
    exact hcheck
  · intro hcheck
    exact ⟨(s', coded), code_eq_ok.mpr ⟨hcoded, hcheck⟩⟩

/-- Items that can be coded fail for an overlap only. -/
theorem code_failsOnly (hcode : ∀ p ∈ placed, s.CanCode p) :
    FailsOnly (fun c => c.kind = .overlap) (s.code (Job.sortItems placed)).result := by
  obtain ⟨⟨s', coded⟩, hcoded⟩ := exists_codeAll_sortItems hcode
  rw [code, Report.result_bind, hcoded, ok_bind, Report.result_bind]
  exact .bind (checkOverlaps_failsOnly none coded) fun _ => .ok _

end Session

/-- In terms of positions: two items that are not related. -/
theorem not_pairwise_iff {α : Type} {R : α → α → Prop} (hsymm : ∀ {a b}, R a b → R b a)
    {xs : List α} :
    ¬ xs.Pairwise R ↔ ∃ (i j : Nat) (a b : α), i ≠ j ∧ xs[i]? = some a ∧ xs[j]? = some b ∧
      ¬ R a b := by
  rw [List.pairwise_iff_getElem]
  constructor
  · intro h
    simp only [not_forall] at h
    obtain ⟨i, j, hi, hj, hij, hR⟩ := h
    exact ⟨i, j, xs[i], xs[j], Nat.ne_of_lt hij, List.getElem?_eq_getElem hi,
      List.getElem?_eq_getElem hj, hR⟩
  · rintro ⟨i, j, a, b, hij, ha, hb, hR⟩ h
    obtain ⟨hi, rfl⟩ := List.getElem?_eq_some_iff.mp ha
    obtain ⟨hj, rfl⟩ := List.getElem?_eq_some_iff.mp hb
    rcases Nat.lt_or_gt_of_ne hij with hlt | hlt
    · exact hR (h i j hi hj hlt)
    · exact hR (hsymm (h j i hj hi hlt))

/-- **Overlaps are found exactly.** Let the words of all items be made without an error. Then the
items in the order of their addresses are refused for an overlap exactly if two of them share an
address; and if they pass, no two of them do. -/
theorem code_overlap_iff_shared_address (s : Session) (placed : List PlacedItem)
    (hwords : ∃ result, (s.codeAll placed).result = .ok result) :
    ((∃ e, (s.code (Job.sortItems placed)).result = .error e ∧ e.kind = .overlap) ↔
      ∃ (i j : Nat) (p q : PlacedItem), i ≠ j ∧ placed[i]? = some p ∧ placed[j]? = some q ∧
        ∃ a, p.place.Covers a ∧ q.place.Covers a) ∧
    ∀ result, (s.code (Job.sortItems placed)).result = .ok result →
      placed.Pairwise fun p q => p.place.Apart q.place := by
  have hcode := Session.exists_codeAll_iff.mp hwords
  have hiff := Session.exists_code_iff hcode
  refine ⟨?_, fun result h => hiff.mp ⟨result, h⟩⟩
  simp only [← Placement.not_apart]
  rw [← not_pairwise_iff (R := fun p q : PlacedItem => p.place.Apart q.place) Placement.Apart.symm,
    ← hiff]
  cases hresult : (s.code (Job.sortItems placed)).result with
  | error e =>
    exact iff_of_true ⟨e, rfl, Session.code_failsOnly hcode e hresult⟩ (by rintro ⟨_, ⟨⟩⟩)
  | ok result =>
    exact iff_of_false (by rintro ⟨_, ⟨⟩, -⟩) fun h => h ⟨result, rfl⟩

/-- A muted filling at the last address of another one, with a label there too: the label has no
words and does not hide the overlap. -/
theorem code_overlap_iff_shared_address_across_label :
    let isa := Isa.bare { size := 8, segment := 8, order := .big } (by decide) (by decide)
    let s : Session :=
      { isa, options := {}, scopes := .empty, named := [], zones := default, symbols := default,
        files := [], warnings := [] }
    let item (statement : Statement) (muted : Bool) : Item :=
      { line := default, text := "", comment := "", zone := 0, scope := 0, active := [],
        compilable := true, muted, statement }
    let filling (count : Int) : Statement := .fill (.literal count) (.literal 0xee)
    let placed : List PlacedItem :=
      [{ item := item (filling 2) true, place := { address := 4, wordCount := 2 } },
        { item := item (.label "here") false, place := { address := 4, wordCount := 0 } },
        { item := item (filling 5) false, place := { address := 0, wordCount := 5 } }]
    (∃ result, (s.codeAll placed).result = .ok result) ∧
      ∃ e, (s.code (Job.sortItems placed)).result = .error e ∧ e.kind = .overlap := by
  intro isa s item filling placed
  have hcounts : ((s.codeAll placed).result.map fun r => r.2.map fun c => c.words.length) =
      .ok [2, 0, 5] := by decide +kernel
  have hwords : ∃ result, (s.codeAll placed).result = .ok result :=
    (map_eq_ok.mp hcounts).imp fun _ => And.left
  refine ⟨hwords, (code_overlap_iff_shared_address s placed hwords).1.mpr ?_⟩
  exact ⟨0, 2, _, _, by decide, rfl, rfl, 4, by decide, by decide⟩

end Retarget
