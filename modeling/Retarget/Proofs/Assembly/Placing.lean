import Retarget.Proofs.Assembly.Overlap
import Retarget.Proofs.Scope.Binding
import Retarget.Proofs.Zone.Cursor

/-!
# The first pass

Every item goes to the cursor of its zone, and the cursor moves behind it. As a cursor never leaves
its zone, neither do the words of an item, however items of different zones alternate.

* `Item.extent_spec`: only the cursor is a place for words;
* `Session.placeItem_eq_ok`: what placing an item does;
* `Session.Placed`: what is known when items have been placed, one after the other.
-/

namespace Retarget

namespace Item

variable {i : Item} {env : Environment} {cursor next address size : Int} {p : Placement}

/-- Statements that go elsewhere have no words. -/
theorem extent_spec (h : i.extent env cursor = .ok (address, size)) :
    0 ≤ size ∧ (0 < size → address = cursor) := by
  unfold extent at h
  cases hstatement : i.statement with
  | org offset zone =>
    rw [hstatement] at h
    obtain ⟨target, -, h⟩ := bind_eq_ok.mp h
    cases pure_eq_ok.mp h
    exact ⟨Int.le_refl 0, fun hpos => absurd hpos (by decide)⟩
  | align page =>
    rw [hstatement] at h
    obtain ⟨target, -, h⟩ := bind_eq_ok.mp h
    cases pure_eq_ok.mp h
    exact ⟨Int.le_refl 0, fun hpos => absurd hpos (by decide)⟩
  | fill count value =>
    rw [hstatement] at h
    obtain ⟨size', hcount, h⟩ := bind_eq_ok.mp h
    cases pure_eq_ok.mp h
    obtain ⟨size', -, hcount⟩ := bind_eq_ok.mp hcount
    split at hcount
    · cases hcount
    · rename_i hnonneg
      cases pure_eq_ok.mp hcount
      exact ⟨Int.not_lt.mp hnonneg, fun _ => rfl⟩
  | fillUntil target value =>
    rw [hstatement] at h
    obtain ⟨target', -, h⟩ := bind_eq_ok.mp h
    cases pure_eq_ok.mp h
    refine ⟨?_, fun _ => rfl⟩
    split <;> omega
  | instruction | data =>
    rw [hstatement] at h
    cases pure_eq_ok.mp h
    exact ⟨Int.natCast_nonneg _, fun _ => rfl⟩
  | plain | label | constant | setZone =>
    rw [hstatement] at h
    cases pure_eq_ok.mp h
    exact ⟨Int.le_refl 0, fun _ => rfl⟩

/-- No more words are reserved than a statement has. -/
theorem reserve_le (h : 0 ≤ size) : (i.reserve size : Int) ≤ size := by
  unfold reserve
  split <;> omega

/-- The words of a placed statement start at the cursor and end where the cursor goes. -/
theorem covers_of_place {a : Int} (h : i.place env cursor = .ok (p, next)) (ha : p.Covers a) :
    cursor ≤ a ∧ a < next := by
  obtain ⟨⟨address, size⟩, hextent, h⟩ := bind_eq_ok.mp h
  cases pure_eq_ok.mp h
  obtain ⟨hnonneg, haddress⟩ := extent_spec hextent
  have hle := i.reserve_le hnonneg
  simp only [Placement.Covers] at ha
  have := haddress (by omega)
  omega

end Item

namespace Session

variable {s s' : Session} {i : Item} {p : PlacedItem}

/-! ## One item -/

theorem warnBehind_eq_ok {cursor : Int} (h : (s.warnBehind i cursor).result = .ok s') :
    ∃ warnings, s' = { s with warnings } := by
  obtain ⟨target, -, h⟩ := Report.result_bind_eq_ok.mp h
  cases target with
  | none => exact ⟨s.warnings, (Except.ok.inj h).symm⟩
  | some target => exact warn_eq_ok h

/-- Labels are bound in scopes. -/
theorem bindAddress_eq_ok {address : Int} (h : s.bindAddress i address = .ok s') :
    ∃ scopes named, s' = { s with scopes, named } := by
  unfold bindAddress at h
  split at h
  · rcases bindLabel_eq_ok (Error.liftAt_eq_ok.mp h) with ⟨named, -, rfl⟩ | ⟨scopes, -, -, rfl⟩
    · exact ⟨s.scopes, named, rfl⟩
    · exact ⟨scopes, s.named, rfl⟩
  · exact ⟨s.scopes, s.named, (Except.ok.inj h).symm⟩

/-- An item is placed at the cursor of its zone, which moves behind it, and its label is bound. -/
theorem placeItem_eq_ok (h : (s.placeItem i).result = .ok (s', p)) :
    ∃ next zones warnings, i.place s.env (s.zones.get i.zone).cursor = .ok (p.place, next) ∧
      s.zones.moveTo i.zone next = .ok zones ∧ p.item = i ∧
      { s with zones, warnings }.bindAddress i p.place.address = .ok s' := by
  obtain ⟨⟨place, next⟩, hplace, h⟩ := Report.result_bind_eq_ok.mp h
  obtain ⟨t, ht, h⟩ := Report.result_bind_eq_ok.mp h
  obtain ⟨warnings, rfl⟩ := warnBehind_eq_ok ht
  obtain ⟨zones, hzones, h⟩ := Report.result_bind_eq_ok.mp h
  obtain ⟨t, hbind, h⟩ := Report.result_bind_eq_ok.mp h
  cases h
  exact ⟨next, zones, warnings, hplace, Error.liftAt_eq_ok.mp hzones, rfl, hbind⟩

/-! ## Items one after the other -/

/-- How a session goes on when items have been placed: the ranges of the zones are the same, all
cursors are where they may stand, and the words of every item are in its zone. -/
structure Placed (s : Session) (items : List Item) (s' : Session) (placed : List PlacedItem) :
    Prop where
  item_eq : placed.map PlacedItem.item = items
  ranges : s.zones.SameRanges s'.zones
  allInside : s'.zones.AllInside
  contains : ∀ p ∈ placed, ∀ a, p.place.Covers a → (s.zones.get p.item.zone).contains a = true

theorem Placed.nil (hinside : s.zones.AllInside) : s.Placed [] s [] :=
  ⟨rfl, .refl _, hinside, by simp⟩

/-- One item. -/
theorem Placed.of_placeItem (hinside : s.zones.AllInside)
    (h : (s.placeItem i).result = .ok (s', p)) : s.Placed [i] s' [p] := by
  obtain ⟨next, zones, warnings, hplace, hmove, rfl, hbind⟩ := placeItem_eq_ok h
  obtain ⟨scopes, named, rfl⟩ := bindAddress_eq_ok hbind
  refine ⟨rfl, .of_moveTo hmove, hinside.moveTo hmove, ?_⟩
  intro q hq a ha
  cases List.mem_singleton.mp hq
  -- The cursor stood in the zone and has moved at most right behind it.
  have hcursor := (hinside _ (s.zones.get_mem_toList p.item.zone)).1
  have hnext := (ZoneMap.moveTo_eq_ok.mp hmove).2.1
  obtain ⟨hle, hlt⟩ := Item.covers_of_place hplace ha
  rw [Zone.contains, Bool.and_eq_true, decide_eq_true_eq, decide_eq_true_eq]
  omega

theorem Placed.append {t : Session} {items more : List Item} {placed others : List PlacedItem}
    (h : s.Placed items t placed) (h' : t.Placed more s' others) :
    s.Placed (items ++ more) s' (placed ++ others) where
  item_eq := by rw [List.map_append, h.item_eq, h'.item_eq]
  ranges := h.ranges.trans h'.ranges
  allInside := h'.allInside
  contains := by
    intro p hp a ha
    rcases List.mem_append.mp hp with hp | hp
    · exact h.contains p hp a ha
    · rw [← h.ranges.contains_eq]
      exact h'.contains p hp a ha

/-- All items. -/
theorem Placed.of_placeAll {items : List Item} {placed : List PlacedItem}
    (hinside : s.zones.AllInside) (h : (s.placeAll items).result = .ok (s', placed)) :
    s.Placed items s' placed := by
  induction items generalizing s placed with
  | nil =>
    cases h
    exact .nil hinside
  | cons i items ih =>
    obtain ⟨⟨t, p⟩, hitem, h⟩ := Report.result_bind_eq_ok.mp h
    obtain ⟨⟨t', others⟩, hrest, h⟩ := Report.result_bind_eq_ok.mp h
    cases h
    have hfirst := Placed.of_placeItem hinside hitem
    exact hfirst.append (ih hfirst.allInside hrest)

end Session

/-- **Items stay in their zones.** Let all cursors be in their zones or right behind them, and let
items of any kinds and zones be placed. Then every address that an item takes up is in the zone of
the item; the ranges of the zones are the same, and all cursors are in their zones or right behind
them again. -/
theorem placeAll_within_zones (s s' : Session) (items : List Item) (placed : List PlacedItem)
    (hcursors : ∀ z ∈ s.zones.toList, z.first ≤ z.cursor ∧ z.cursor ≤ z.last + 1)
    (h : (s.placeAll items).result = .ok (s', placed)) :
    placed.map PlacedItem.item = items ∧
    (∀ p ∈ placed, ∀ a, p.place.address ≤ a → a < p.place.address + p.place.wordCount →
      (s.zones.get p.item.zone).first ≤ a ∧ a ≤ (s.zones.get p.item.zone).last) ∧
    s'.zones.toList.map Zone.rewind = s.zones.toList.map Zone.rewind ∧
    ∀ z ∈ s'.zones.toList, z.first ≤ z.cursor ∧ z.cursor ≤ z.last + 1 := by
  have hplaced := Session.Placed.of_placeAll hcursors h
  refine ⟨hplaced.item_eq, fun p hp a hle hlt => ?_, hplaced.ranges, hplaced.allInside⟩
  have hcontains := hplaced.contains p hp a ⟨hle, hlt⟩
  simpa [Zone.contains] using hcontains

/-- Two zones in turn, one of them inside the other: a filling up to an address, an origin in the
zone and a filling to its end, which leaves its cursor behind it, and an alignment between two
fillings of the outer zone. -/
theorem placeAll_within_zones_in_turn :
    let isa := Isa.bare { size := 8, segment := 8, order := .big } (by decide) (by decide)
    let zone (name : String) (first last : Int) : Zone :=
      { name, bits := 8, first, last, cursor := first }
    let s : Session :=
      { isa, options := {}, scopes := .empty, named := [],
        zones := { bits := 8, global := zone "GLOBAL" 0 255, others := [zone "data" 8 15] },
        symbols := default, files := [], warnings := [] }
    let item (zone : ZoneId) (statement : Statement) : Item :=
      { line := default, text := "", comment := "", zone, scope := 0, active := [],
        compilable := true, muted := false, statement }
    let items : List Item :=
      [item 0 (.fill (.literal 3) (.literal 0)), item 1 (.fillUntil (.literal 10) (.literal 1)),
        item 0 (.align (some (.literal 4))), item 1 (.org (.literal 4) (some "data")),
        item 0 (.fill (.literal 2) (.literal 2)), item 1 (.label "end"),
        item 1 (.fill (.literal 4) (.literal 3))]
    ∃ s' placed, (s.placeAll items).result = .ok (s', placed) ∧
      placed.map PlacedItem.place =
        [⟨0, 3⟩, ⟨8, 3⟩, ⟨4, 0⟩, ⟨12, 0⟩, ⟨4, 2⟩, ⟨12, 0⟩, ⟨12, 4⟩] ∧
      s'.zones.toList.map Zone.cursor = [6, 16] ∧
      ∀ p ∈ placed, ∀ a, p.place.address ≤ a → a < p.place.address + p.place.wordCount →
        (s.zones.get p.item.zone).first ≤ a ∧ a ≤ (s.zones.get p.item.zone).last := by
  intro isa zone s item items
  have hview : ((s.placeAll items).result.map fun r =>
      (r.2.map PlacedItem.place, r.1.zones.toList.map Zone.cursor)) =
      .ok ([⟨0, 3⟩, ⟨8, 3⟩, ⟨4, 0⟩, ⟨12, 0⟩, ⟨4, 2⟩, ⟨12, 0⟩, ⟨12, 4⟩], [6, 16]) := by
    decide +kernel
  obtain ⟨⟨s', placed⟩, h, hview⟩ := map_eq_ok.mp hview
  obtain ⟨hplaces, hcursors⟩ := Prod.mk.inj hview
  exact ⟨s', placed, h, hplaces, hcursors,
    (placeAll_within_zones s s' items placed (by decide) h).2.1⟩

end Retarget
