import Mathlib.Data.List.Forall2
import Retarget.Assembly.Program
import Retarget.Proofs.Statement.Size

/-!
# The second pass

Making the words of items changes nothing in a session but its warnings, so that the words of an
item do not depend on the items before it.

* `codeAll_codedFrom`: which words the pass makes for each item;
* `exists_codeAll_iff`: it makes them if every item alone allows it, in whatever order the items
  stand;
* `sortItems_perm`, `sortItems_sorted`: what putting items in order does to them.
-/

namespace Retarget

/-- `c` is `p` with its words. -/
structure CodedFrom (env : Environment) (p : PlacedItem) (c : CodedItem) : Prop where
  item_eq : c.item = p.item
  place_eq : c.place = p.place
  words_eq : ∃ warnings, p.item.words env (some p.place) = .ok (c.words, warnings)

theorem CodedFrom.length_words {env : Environment} {p : PlacedItem} {c : CodedItem}
    (h : CodedFrom env p c) : c.words.length = c.place.wordCount := by
  obtain ⟨warnings, hwords⟩ := h.words_eq
  rw [h.place_eq]
  exact (Item.words_eq_ok.mp hwords).2

/-- Only words of at most 128 bits are ever made. -/
theorem CodedFrom.wordSize_le {env : Environment} {p : PlacedItem} {c : CodedItem}
    (h : CodedFrom env p c) (hpos : 0 < c.place.wordCount) : env.isa.wordSize ≤ 128 := by
  rw [← h.length_words] at hpos
  obtain ⟨w, hw⟩ := List.exists_mem_of_length_pos hpos
  obtain ⟨warnings, hwords⟩ := h.words_eq
  rw [← Item.size_of_mem_wordsAt (Item.words_eq_ok.mp hwords).1 w hw]
  exact w.size_le

namespace Session

/-- The words of an item can be made, and there are no warnings about them if warnings are
errors. -/
def CanCode (s : Session) (p : PlacedItem) : Prop :=
  ∃ words warnings, p.item.words s.env (some p.place) = .ok (words, warnings) ∧
    (s.options.warningsAsErrors = true → warnings = [])

/-! ## Warnings -/

theorem warn_eq_ok {s s' : Session} {line : SourceLine} {text : String}
    (h : (s.warn line text).result = .ok s') : ∃ warnings, s' = { s with warnings } := by
  unfold warn at h
  split at h
  · cases h
  · exact ⟨_, (Except.ok.inj h).symm⟩

theorem exists_warn {s : Session} (hlax : s.options.warningsAsErrors = false) (line : SourceLine)
    (text : String) : ∃ warnings, (s.warn line text).result = .ok { s with warnings } := by
  unfold warn
  rw [hlax]
  exact ⟨_, rfl⟩

/-- Warnings change nothing else. -/
theorem warnAll_eq_ok {s s' : Session} {line : SourceLine} {texts : List String}
    (h : (s.warnAll line texts).result = .ok s') : ∃ warnings, s' = { s with warnings } := by
  induction texts generalizing s with
  | nil => exact ⟨s.warnings, (Except.ok.inj h).symm⟩
  | cons text texts ih =>
    rw [warnAll, Report.result_bind] at h
    obtain ⟨t, ht, h⟩ := bind_eq_ok.mp h
    obtain ⟨_, rfl⟩ := warn_eq_ok ht
    obtain ⟨warnings, rfl⟩ := ih h
    exact ⟨warnings, rfl⟩

/-- Where warnings are not errors, any number of them can be given. -/
theorem exists_warnAll {s : Session} (hlax : s.options.warningsAsErrors = false) (line : SourceLine)
    (texts : List String) : ∃ s', (s.warnAll line texts).result = .ok s' := by
  induction texts generalizing s with
  | nil => exact ⟨s, rfl⟩
  | cons text texts ih =>
    obtain ⟨warnings, hwarn⟩ := exists_warn hlax line text
    obtain ⟨s', hs'⟩ := @ih { s with warnings } hlax
    refine ⟨s', ?_⟩
    rw [warnAll, Report.result_bind, hwarn]
    exact hs'

theorem exists_warnAll_iff {s : Session} {line : SourceLine} {texts : List String} :
    (∃ s', (s.warnAll line texts).result = .ok s') ↔
      (s.options.warningsAsErrors = true → texts = []) := by
  cases hstrict : s.options.warningsAsErrors with
  | false => exact ⟨fun _ => nofun, fun _ => exists_warnAll hstrict line texts⟩
  | true =>
    cases texts with
    | nil => exact ⟨fun _ _ => rfl, fun _ => ⟨s, rfl⟩⟩
    | cons text texts =>
      rw [warnAll, warn, if_pos hstrict]
      constructor
      · rintro ⟨s', h⟩
        cases h
      · intro h
        cases h rfl

/-! ## Words of items -/

theorem codeAll_cons_eq_ok {s s' : Session} {p : PlacedItem} {placed : List PlacedItem}
    {coded : List CodedItem} (h : (s.codeAll (p :: placed)).result = .ok (s', coded)) :
    ∃ words texts warnings rest, p.item.words s.env (some p.place) = .ok (words, texts) ∧
      (s.warnAll p.item.line texts).result = .ok { s with warnings } ∧
      ({ s with warnings }.codeAll placed).result = .ok (s', rest) ∧
      coded = { item := p.item, place := p.place, words } :: rest := by
  rw [codeAll, Report.result_bind] at h
  obtain ⟨⟨words, texts⟩, hwords, h⟩ := bind_eq_ok.mp h
  rw [Report.result_bind] at h
  obtain ⟨t, ht, h⟩ := bind_eq_ok.mp h
  rw [Report.result_bind] at h
  obtain ⟨⟨s'', rest⟩, hrest, h⟩ := bind_eq_ok.mp h
  cases h
  obtain ⟨warnings, rfl⟩ := warnAll_eq_ok ht
  exact ⟨words, texts, warnings, rest, hwords, ht, hrest, rfl⟩

/-- The words that the pass makes. -/
theorem codeAll_codedFrom {s s' : Session} {placed : List PlacedItem} {coded : List CodedItem}
    (h : (s.codeAll placed).result = .ok (s', coded)) :
    List.Forall₂ (CodedFrom s.env) placed coded := by
  induction placed generalizing s coded with
  | nil =>
    cases h
    exact .nil
  | cons p placed ih =>
    obtain ⟨words, texts, warnings, rest, hwords, -, hrest, rfl⟩ := codeAll_cons_eq_ok h
    have hcoded := ih hrest
    exact .cons ⟨rfl, rfl, texts, hwords⟩ hcoded

/-- The pass makes the words of items if it can make those of each one. -/
theorem exists_codeAll_iff {s : Session} {placed : List PlacedItem} :
    (∃ result, (s.codeAll placed).result = .ok result) ↔ ∀ p ∈ placed, s.CanCode p := by
  induction placed generalizing s with
  | nil => exact ⟨fun _ => by simp, fun _ => ⟨(s, []), rfl⟩⟩
  | cons p placed ih =>
    rw [List.forall_mem_cons]
    constructor
    · rintro ⟨⟨s', coded⟩, h⟩
      obtain ⟨words, texts, warnings, rest, hwords, hwarn, hrest, -⟩ := codeAll_cons_eq_ok h
      have hplaced := ih.mp ⟨_, hrest⟩
      exact ⟨⟨words, texts, hwords, exists_warnAll_iff.mp ⟨_, hwarn⟩⟩, hplaced⟩
    · rintro ⟨⟨words, texts, hwords, htexts⟩, hplaced⟩
      obtain ⟨t, ht⟩ := exists_warnAll_iff.mpr htexts
      obtain ⟨warnings, rfl⟩ := warnAll_eq_ok ht
      obtain ⟨⟨s', rest⟩, hrest⟩ := (ih (s := { s with warnings })).mpr hplaced
      refine ⟨(s', { item := p.item, place := p.place, words } :: rest), ?_⟩
      rw [codeAll, Report.result_bind, Report.result_ofExcept, hwords, ok_bind,
        Report.result_bind, ht, ok_bind, Report.result_bind, hrest]
      rfl

/-- Items are coded, and then none of them may overlap. -/
theorem code_eq_ok {s s' : Session} {placed : List PlacedItem} {coded : List CodedItem} :
    (s.code placed).result = .ok (s', coded) ↔
      (s.codeAll placed).result = .ok (s', coded) ∧ checkOverlaps none coded = .ok () := by
  rw [code, Report.result_bind]
  constructor
  · intro h
    obtain ⟨⟨s'', coded'⟩, hcode, h⟩ := bind_eq_ok.mp h
    rw [Report.result_bind] at h
    obtain ⟨⟨⟩, hcheck, h⟩ := bind_eq_ok.mp h
    cases h
    exact ⟨hcode, hcheck⟩
  · rintro ⟨hcode, hcheck⟩
    rw [hcode, ok_bind, Report.result_bind, Report.result_ofExcept, hcheck]
    rfl

end Session

/-! ## The order of items -/

namespace Job

theorem sortItems_perm (placed : List PlacedItem) : (sortItems placed).Perm placed :=
  List.mergeSort_perm placed _

@[simp] theorem mem_sortItems {placed : List PlacedItem} {p : PlacedItem} :
    p ∈ sortItems placed ↔ p ∈ placed := (sortItems_perm placed).mem_iff

theorem sortItems_sorted (placed : List PlacedItem) :
    (sortItems placed).Pairwise fun p q => p.place.address ≤ q.place.address := by
  have htrans (p q r : PlacedItem) : decide (p.place.address ≤ q.place.address) = true →
      decide (q.place.address ≤ r.place.address) = true →
        decide (p.place.address ≤ r.place.address) = true := by
    simp only [decide_eq_true_eq]
    exact Int.le_trans
  have htotal (p q : PlacedItem) : (decide (p.place.address ≤ q.place.address) ||
      decide (q.place.address ≤ p.place.address)) = true := by
    simp only [Bool.or_eq_true, decide_eq_true_eq]
    exact Int.le_total _ _
  exact (List.pairwise_mergeSort htrans htotal placed).imp of_decide_eq_true

end Job

end Retarget
