import Retarget.Proofs.Assembly.Placing
import Retarget.Proofs.Expr.Name
import Retarget.Proofs.Scope.Tables

/-!
# Zones in any order

If no place depends on labels, then the items of a zone go where the cursor of that zone takes them,
whatever is placed in other zones in between. Labels only have to be different, and no table knows
in which order it was filled. So items may be placed in any order that keeps the order in each zone.

* `Session.Moves`, `Session.Advances`: what an item and what the items of a zone do to its cursor;
* `PlacedItem.entry?`, `Session.Bound`: the entries that placed items add to the tables;
* `Session.placeItem_step`, `Session.exists_placeItem`: placing an item, in these terms;
* `Session.placeAll_run`, `Session.exists_placeAll`: placing all items.
-/

namespace Retarget

/-! ## Lists in any order -/

/-- Lists that have the same members of each kind, in the same order, have the same members. -/
theorem perm_of_filter_eq {α κ : Type} [DecidableEq κ] {kind : α → κ} {xs ys : List α}
    (h : ∀ k, xs.filter (fun x => kind x = k) = ys.filter fun x => kind x = k) : xs.Perm ys := by
  classical
  rw [List.perm_iff_count]
  intro a
  have hxs := List.count_filter (p := fun x => decide (kind x = kind a)) (a := a)
    (l := xs) (by simp)
  have hys := List.count_filter (p := fun x => decide (kind x = kind a)) (a := a)
    (l := ys) (by simp)
  rw [← hxs, ← hys, h]

/-- Lists of each kind can be merged in a given order. -/
theorem exists_map_eq_of_filter_eq {α β κ : Type} [DecidableEq κ] {f : α → β} (kind : β → κ)
    {ys : List β} (parts : κ → List α)
    (h : ∀ k, ys.filter (fun y => kind y = k) = (parts k).map f) :
    ∃ xs : List α, xs.map f = ys ∧ ∀ k, xs.filter (fun x => kind (f x) = k) = parts k := by
  induction ys generalizing parts with
  | nil =>
    refine ⟨[], rfl, fun k => ?_⟩
    have hnil : (parts k).map f = [] := (h k).symm
    rw [List.map_eq_nil_iff.mp hnil, List.filter_nil]
  | cons y ys ih =>
    have hfirst := h (kind y)
    rw [List.filter_cons_of_pos (by simp), eq_comm, List.map_eq_cons_iff] at hfirst
    obtain ⟨x, rest, hparts, rfl, hrest⟩ := hfirst
    have hothers : ∀ k, ys.filter (fun y => kind y = k) =
        (Function.update parts (kind (f x)) rest k).map f := by
      intro k
      by_cases hk : k = kind (f x)
      · subst hk
        rw [Function.update_self, hrest]
      · rw [Function.update_of_ne hk, ← h k, List.filter_cons_of_neg (by simpa using Ne.symm hk)]
    obtain ⟨xs, rfl, hxs⟩ := ih _ hothers
    refine ⟨x :: xs, rfl, fun k => ?_⟩
    by_cases hk : k = kind (f x)
    · subst hk
      rw [List.filter_cons_of_pos (by simp), hxs, Function.update_self, hparts]
    · rw [List.filter_cons_of_neg (by simpa using Ne.symm hk), hxs, Function.update_of_ne hk]

/-! ## Cursors -/

namespace ZoneMap

variable {m m' : ZoneMap} {id other : ZoneId} {z : Zone}

theorem get_set_self (hid : id < m.toList.length) : (m.set id z).get id = z := by
  rw [get, toList_set, List.getD_eq_getElem?_getD, List.getElem?_set_self hid, Option.getD_some]

theorem get_set_of_ne (hne : id ≠ other) (hother : other < m.toList.length) :
    (m.set id z).get other = m.get other := by
  rw [get, toList_set, List.getD_eq_getElem?_getD, List.getElem?_set_ne hne,
    List.getElem?_eq_getElem hother, get, List.getD_eq_getElem?_getD,
    List.getElem?_eq_getElem hother, Option.getD_some, Option.getD_some]

theorem bits_set : (m.set id z).bits = m.bits := by
  cases id <;> rfl

theorem SameRanges.length_eq (h : m.SameRanges m') : m'.toList.length = m.toList.length := by
  simpa using congrArg List.length h

theorem SameRanges.first_eq (h : m.SameRanges m') (id : ZoneId) :
    (m'.get id).first = (m.get id).first :=
  (congrArg Zone.first (h.rewind_get id) :)

theorem SameRanges.last_eq (h : m.SameRanges m') (id : ZoneId) :
    (m'.get id).last = (m.get id).last :=
  (congrArg Zone.last (h.rewind_get id) :)

/-- Zones with the same ranges and cursors are the same. -/
theorem SameRanges.eq (h : m.SameRanges m') (hbits : m'.bits = m.bits)
    (hcursor : ∀ id < m.toList.length, (m'.get id).cursor = (m.get id).cursor) : m' = m := by
  have hlist : m'.toList = m.toList := by
    refine List.ext_getElem h.length_eq fun id hid' hid => ?_
    have hget (n : ZoneMap) (hn : id < n.toList.length) : n.toList[id] = n.get id := by
      rw [get, List.getD_eq_getElem?_getD, List.getElem?_eq_getElem hn, Option.getD_some]
    have hrange := h.rewind_get id
    have hsame := hcursor id hid
    rw [hget m' hid', hget m hid]
    cases hz' : m'.get id
    cases hz : m.get id
    simp only [hz', hz, Zone.rewind, Zone.mk.injEq] at hrange hsame ⊢
    exact ⟨hrange.1, hrange.2.1, hrange.2.2.1, hrange.2.2.2.1, hsame⟩
  obtain ⟨bits, global, others⟩ := m
  obtain ⟨bits', global', others'⟩ := m'
  obtain ⟨rfl, rfl⟩ := List.cons.inj hlist
  cases hbits
  rfl

end ZoneMap

/-! ## Places -/

/-- The expression that the place of a statement depends on. -/
def Statement.placing? : Statement → Option Expression
  | .org offset _ => some offset
  | .align page => page
  | .fill count _ => some count
  | .fillUntil target _ => some target
  | _ => none

namespace Item

/-- The place of the item depends on no labels. -/
def PlacedWithoutLabels (i : Item) : Prop := ∀ e ∈ i.statement.placing?, e.term.labels = []

instance (i : Item) : Decidable i.PlacedWithoutLabels :=
  inferInstanceAs (Decidable (∀ e ∈ i.statement.placing?, e.term.labels = []))

variable {i : Item} {env env' : Environment}

theorem eval_of_noLabels (env env' : Environment) {e : Expression} (h : e.term.labels = []) :
    i.eval env' e = i.eval env e := by
  have hterm : e.term.eval (i.labels env') = e.term.eval (i.labels env) :=
    Term.eval_congr (by rw [h]; exact List.forall_mem_nil _)
  rw [eval, eval, Expression.eval, Expression.eval, hterm]

theorem originAddress_congr {offset : Expression} {zone : Option String}
    (h : offset.term.labels = []) (hranges : env.zones.SameRanges env'.zones) :
    i.originAddress env' offset zone = i.originAddress env offset zone := by
  have hfirst : env'.zones.global.first = env.zones.global.first :=
    hranges.first_eq ZoneMap.globalId
  have hlast : env'.zones.global.last = env.zones.global.last := hranges.last_eq ZoneMap.globalId
  have hcontains (a : Int) : env'.zones.global.contains a = env.zones.global.contains a :=
    hranges.contains_eq ZoneMap.globalId a
  simp only [originAddress, eval_of_noLabels env env' h, hranges.first_eq, hcontains, hfirst, hlast]

theorem pageAddress_congr {page : Option Expression} (h : ∀ e ∈ page, e.term.labels = [])
    (hisa : env'.isa = env.isa) (cursor : Int) :
    i.pageAddress env' cursor page = i.pageAddress env cursor page := by
  have hsize : i.pageSize env' page = i.pageSize env page := by
    cases page with
    | none => rw [pageSize, pageSize, hisa]
    | some e => exact eval_of_noLabels env env' (h e rfl)
  rw [pageAddress, pageAddress, hsize]

/-- Such an item has the same place wherever the zones have the same ranges. -/
theorem place_congr (hfree : i.PlacedWithoutLabels) (hisa : env'.isa = env.isa)
    (hranges : env.zones.SameRanges env'.zones) (cursor : Int) :
    i.place env' cursor = i.place env cursor := by
  have hextent : i.extent env' cursor = i.extent env cursor := by
    unfold PlacedWithoutLabels at hfree
    unfold extent
    cases hstatement : i.statement with
    | org offset zone =>
      rw [hstatement] at hfree
      simp only [originAddress_congr (hfree offset rfl) hranges]
    | align page =>
      rw [hstatement] at hfree
      have hpage : i.pageAddress env' cursor page = i.pageAddress env cursor page :=
        pageAddress_congr hfree hisa cursor
      simp only [hpage]
    | fill count value =>
      rw [hstatement] at hfree
      simp only [fillCount, eval_of_noLabels env env' (hfree count rfl)]
    | fillUntil target value =>
      rw [hstatement] at hfree
      simp only [eval_of_noLabels env env' (hfree target rfl)]
    | data d => simp only [hisa]
    | instruction | plain | label | constant | setZone => rfl
  rw [place, place, hextent]

theorem targetBehind_congr (hfree : i.PlacedWithoutLabels) (cursor : Int) :
    i.targetBehind env' cursor = i.targetBehind env cursor := by
  unfold PlacedWithoutLabels at hfree
  unfold targetBehind
  cases hstatement : i.statement with
  | fillUntil target value =>
    rw [hstatement] at hfree
    simp only [eval_of_noLabels env env' (hfree target rfl)]
  | _ => rfl

end Item

namespace Session

variable {s s' t : Session} {p : PlacedItem} {cursor next : Int}

/-- A session that goes on from `s`, with other cursors and bindings. -/
structure Continues (s t : Session) : Prop where
  isa_eq : t.isa = s.isa
  options_eq : t.options = s.options
  bits_eq : t.zones.bits = s.zones.bits
  ranges : s.zones.SameRanges t.zones
  same : s.SameTables t

theorem Continues.refl (s : Session) : s.Continues s :=
  ⟨rfl, rfl, rfl, .refl _, fun _ _ _ _ => rfl, fun _ _ _ => rfl⟩

/-- The item has its place if the cursor of its zone is at `cursor`, and moves it to `next`. -/
structure Moves (s : Session) (p : PlacedItem) (cursor next : Int) : Prop where
  place_eq : p.item.place s.env cursor = .ok (p.place, next)
  /-- Where warnings are errors, the item gives none. -/
  quiet : ∃ behind, p.item.targetBehind s.env cursor = .ok behind ∧
    (s.options.warningsAsErrors = true → behind = none)
  inside : (s.zones.get p.item.zone).first ≤ next ∧ next ≤ (s.zones.get p.item.zone).last + 1

theorem Continues.moves_iff (h : s.Continues t) (hfree : p.item.PlacedWithoutLabels) :
    t.Moves p cursor next ↔ s.Moves p cursor next := by
  have hplace : p.item.place t.env cursor = p.item.place s.env cursor :=
    Item.place_congr hfree h.isa_eq h.ranges cursor
  have hbehind : p.item.targetBehind t.env cursor = p.item.targetBehind s.env cursor :=
    Item.targetBehind_congr hfree cursor
  have hfirst := h.ranges.first_eq p.item.zone
  have hlast := h.ranges.last_eq p.item.zone
  constructor
  · rintro ⟨hp, hq, hi⟩
    exact ⟨hplace ▸ hp, by rwa [hbehind, h.options_eq] at hq, by rwa [hfirst, hlast] at hi⟩
  · rintro ⟨hp, hq, hi⟩
    exact ⟨hplace.symm ▸ hp, by rwa [hbehind, h.options_eq], by rwa [hfirst, hlast]⟩

/-- The items of a zone take its cursor from one address to another. -/
def Advances (s : Session) : List PlacedItem → Int → Int → Prop
  | [], cursor, last => cursor = last
  | p :: ps, cursor, last => ∃ next, s.Moves p cursor next ∧ s.Advances ps next last

/-- Where the cursor goes depends on where it was. -/
theorem Advances.eq {ps : List PlacedItem} {last last' : Int} (h : s.Advances ps cursor last)
    (h' : s.Advances ps cursor last') : last = last' := by
  induction ps generalizing cursor with
  | nil => exact h.symm.trans h'
  | cons p ps ih =>
    obtain ⟨next, hmoves, h⟩ := h
    obtain ⟨next', hmoves', h'⟩ := h'
    have hnext := hmoves.place_eq.symm.trans hmoves'.place_eq
    cases hnext
    exact ih h h'

end Session

/-! ## Labels -/

/-- The entry that a placed item adds to a table. -/
def PlacedItem.entry? (s : Session) (p : PlacedItem) : Option (Table × Binding) :=
  p.item.addressLabel?.bind fun label =>
    (s.tableFor? p.item.scope p.item.active label p.item.line).map fun table =>
      (table, { label, value := p.place.address, line := p.item.line })

/-- The label of a placed item has a table. -/
def PlacedItem.HasTable (s : Session) (p : PlacedItem) : Prop :=
  ∀ label ∈ p.item.addressLabel?, (s.tableFor? p.item.scope p.item.active label p.item.line).isSome

namespace Session

variable {s s' t : Session} {p : PlacedItem} {es : List (Table × Binding)}

/-- Entries that can be added to the tables, in any order. -/
structure Fresh (s : Session) (es : List (Table × Binding)) : Prop where
  free : ∀ e ∈ es, s.entry e.1 e.2.label = none
  apart : es.Pairwise fun d e => ¬ (d.1 = e.1 ∧ d.2.label = e.2.label)

/-- The session goes on from `s`, and its tables hold what they held and some new entries. -/
structure Bound (s : Session) (es : List (Table × Binding)) (t : Session) : Prop where
  continues : s.Continues t
  entry_iff : ∀ table label b, t.entry table label = some b ↔
    s.entry table label = some b ∨ (table, b) ∈ es ∧ b.label = label

theorem Bound.refl (s : Session) : s.Bound [] s :=
  ⟨.refl s, by simp⟩

/-- An entry is free if neither the session nor the new entries have it. -/
theorem Bound.entry_eq_none (h : s.Bound es t) {table : Table} {label : String} :
    t.entry table label = none ↔ s.entry table label = none ∧ ∀ e ∈ es,
      ¬ (e.1 = table ∧ e.2.label = label) := by
  simp only [Option.eq_none_iff_forall_ne_some, ne_eq, h.entry_iff, not_or]
  constructor
  · intro hnone
    refine ⟨fun b => (hnone b).1, ?_⟩
    rintro ⟨table, b⟩ he ⟨rfl, hlabel⟩
    exact (hnone b).2 ⟨he, hlabel⟩
  · rintro ⟨hnone, hes⟩ b
    exact ⟨hnone b, fun ⟨he, hlabel⟩ => hes (table, b) he ⟨rfl, hlabel⟩⟩

/-- One more entry can be added if it is free now. -/
theorem Bound.fresh_concat_iff (h : s.Bound es t) (hes : s.Fresh es) (e : Table × Binding) :
    s.Fresh (es ++ [e]) ↔ t.entry e.1 e.2.label = none := by
  rw [h.entry_eq_none]
  constructor
  · rintro ⟨hfree, hapart⟩
    exact ⟨hfree e (by simp), fun d hd => (List.pairwise_append.mp hapart).2.2 d hd e (by simp)⟩
  · rintro ⟨hfree, hapart⟩
    refine ⟨?_, List.pairwise_append.mpr ⟨hes.apart, List.pairwise_singleton _ _, ?_⟩⟩
    · intro d hd
      rcases List.mem_append.mp hd with hd | hd
      · exact hes.free d hd
      · rw [List.mem_singleton.mp hd]
        exact hfree
    · intro d hd e' he'
      rw [List.mem_singleton.mp he']
      exact hapart d hd

/-- Binding the label of a placed item adds its entry. -/
theorem bindAddress_adds (h : s.bindAddress p.item p.place.address = .ok s') :
    p.HasTable s ∧ (∀ e ∈ p.entry? s, s.Adds s' e.1 e.2) ∧ (p.entry? s = none → s' = s) := by
  unfold bindAddress at h
  cases hlabel : p.item.addressLabel? with
  | none =>
    rw [hlabel] at h
    cases h
    simp [PlacedItem.HasTable, PlacedItem.entry?, hlabel]
  | some label =>
    rw [hlabel] at h
    obtain ⟨table, htable, hadds⟩ := bindLabel_adds (Error.liftAt_eq_ok.mp h)
    simpa [PlacedItem.HasTable, PlacedItem.entry?, hlabel, htable] using hadds

/-- The label of a placed item can be bound if its entry is free. -/
theorem exists_bindAddress (htable : p.HasTable s)
    (hfree : ∀ e ∈ p.entry? s, s.entry e.1 e.2.label = none) :
    ∃ s', s.bindAddress p.item p.place.address = .ok s' := by
  unfold bindAddress
  cases hlabel : p.item.addressLabel? with
  | none => exact ⟨s, rfl⟩
  | some label =>
    obtain ⟨table, htable⟩ := Option.isSome_iff_exists.mp (htable label hlabel)
    have hentry : s.entry table label = none := by
      simpa [PlacedItem.entry?, hlabel, htable] using hfree
    obtain ⟨s', hs'⟩ := exists_bindLabel htable hentry p.place.address
    exact ⟨s', Error.liftAt_eq_ok.mpr hs'⟩

/-! ## Placing an item -/

/-- The session when the cursor of the item's zone has moved. -/
def moved (s : Session) (p : PlacedItem) (next : Int) (warnings : List Warning) : Session :=
  { s with
    zones := s.zones.set p.item.zone { s.zones.get p.item.zone with cursor := next }, warnings }

theorem placeItem_moves {i : Item} (h : (s.placeItem i).result = .ok (s', p)) :
    p.item = i ∧ ∃ next warnings, s.Moves p (s.zones.get p.item.zone).cursor next ∧
      (s.moved p next warnings).bindAddress p.item p.place.address = .ok s' := by
  obtain ⟨⟨place, next⟩, hplace, h⟩ := Report.result_bind_eq_ok.mp h
  obtain ⟨t, hbehind, h⟩ := Report.result_bind_eq_ok.mp h
  obtain ⟨warnings, rfl⟩ := warnBehind_eq_ok hbehind
  obtain ⟨zones, hzones, h⟩ := Report.result_bind_eq_ok.mp h
  obtain ⟨t, hbind, h⟩ := Report.result_bind_eq_ok.mp h
  cases h
  obtain ⟨hfirst, hlast, rfl⟩ := ZoneMap.moveTo_eq_ok.mp (Error.liftAt_eq_ok.mp hzones)
  refine ⟨rfl, next, warnings, ⟨hplace, ?_, hfirst, hlast⟩, hbind⟩
  obtain ⟨behind, htarget, hwarn⟩ := Report.result_bind_eq_ok.mp hbehind
  refine ⟨behind, htarget, fun hstrict => ?_⟩
  cases behind with
  | none => rfl
  | some target =>
    simp only [warn, hstrict, if_true] at hwarn
    cases hwarn

theorem exists_placeItem_of_moves {next : Int}
    (hmoves : s.Moves p (s.zones.get p.item.zone).cursor next)
    (hbind : ∀ warnings, ∃ s',
      (s.moved p next warnings).bindAddress p.item p.place.address = .ok s') :
    ∃ s', (s.placeItem p.item).result = .ok (s', p) := by
  have hwarn : ∃ warnings, (s.warnBehind p.item (s.zones.get p.item.zone).cursor).result =
      .ok { s with warnings } := by
    obtain ⟨behind, htarget, hquiet⟩ := hmoves.quiet
    cases behind with
    | none => exact ⟨s.warnings, Report.result_bind_eq_ok.mpr ⟨none, htarget, rfl⟩⟩
    | some target =>
      have hlax : s.options.warningsAsErrors = false := by
        cases hstrict : s.options.warningsAsErrors with
        | false => rfl
        | true => cases hquiet hstrict
      exact (exists_warn hlax _ _).imp fun warnings hwarn =>
        Report.result_bind_eq_ok.mpr ⟨some target, htarget, hwarn⟩
  obtain ⟨warnings, hwarn⟩ := hwarn
  obtain ⟨s', hs'⟩ := hbind warnings
  have hmove := ZoneMap.moveTo_eq_ok.mpr ⟨hmoves.inside.1, hmoves.inside.2, rfl⟩
  refine ⟨s', Report.result_bind_eq_ok.mpr ⟨_, hmoves.place_eq,
    Report.result_bind_eq_ok.mpr ⟨_, hwarn,
      Report.result_bind_eq_ok.mpr ⟨_, Error.liftAt_eq_ok.mpr hmove,
        Report.result_bind_eq_ok.mpr ⟨s', hs', rfl⟩⟩⟩⟩⟩

theorem Continues.entry?_eq (h : s.Continues t) : p.entry? t = p.entry? s := by
  simp only [PlacedItem.entry?, h.same.tableFor_eq]

theorem Continues.hasTable_iff (h : s.Continues t) : p.HasTable t ↔ p.HasTable s := by
  simp only [PlacedItem.HasTable, h.same.tableFor_eq]

/-- Moving a cursor inside its zone leaves the ranges and the tables alone. -/
theorem Bound.moved (h : s.Bound es t) {next : Int} (warnings : List Warning)
    (hmoves : t.Moves p (t.zones.get p.item.zone).cursor next) :
    s.Bound es (t.moved p next warnings) where
  continues :=
    { isa_eq := h.continues.isa_eq
      options_eq := h.continues.options_eq
      bits_eq := ZoneMap.bits_set.trans h.continues.bits_eq
      ranges := h.continues.ranges.trans (.of_moveTo (ZoneMap.moveTo_eq_ok.mpr ⟨hmoves.inside.1,
        hmoves.inside.2, rfl⟩))
      same := ⟨h.continues.same.tableFor_eq, h.continues.same.seen_eq⟩ }
  entry_iff := h.entry_iff

theorem Bound.of_bindAddress (h : s.Bound es t) (hes : s.Fresh es)
    (hbind : t.bindAddress p.item p.place.address = .ok s') :
    p.HasTable s ∧ s.Fresh (es ++ (p.entry? s).toList) ∧
      s.Bound (es ++ (p.entry? s).toList) s' := by
  obtain ⟨htable, hadds, hnone⟩ := bindAddress_adds hbind
  rw [h.continues.hasTable_iff] at htable
  rw [h.continues.entry?_eq] at hadds hnone
  refine ⟨htable, ?_⟩
  cases hentry : p.entry? s with
  | none =>
    rw [hnone hentry, Option.toList_none, List.append_nil]
    exact ⟨hes, h⟩
  | some e =>
    have hadd := hadds e hentry
    rw [Option.toList_some]
    refine ⟨(h.fresh_concat_iff hes e).mpr hadd.free, ?_, ?_⟩
    · obtain ⟨scopes, named, rfl⟩ := bindAddress_eq_ok hbind
      refine ⟨h.continues.isa_eq, h.continues.options_eq, h.continues.bits_eq,
        h.continues.ranges, ?_, ?_⟩
      · intro scope active label line
        rw [hadd.same.tableFor_eq, h.continues.same.tableFor_eq]
      · intro scope active label
        rw [hadd.same.seen_eq, h.continues.same.seen_eq]
    · intro table label b
      obtain ⟨hnone, hothers⟩ := h.entry_eq_none.mp hadd.free
      rw [hadd.entry_eq, List.mem_append, List.mem_singleton]
      by_cases hkey : table = e.1 ∧ label = e.2.label
      · rw [if_pos hkey]
        obtain ⟨rfl, rfl⟩ := hkey
        constructor
        · rintro ⟨⟩
          exact .inr ⟨.inr rfl, rfl⟩
        · rintro (hold | ⟨hold | heq, hlabel⟩)
          · rw [hnone] at hold
            cases hold
          · exact absurd ⟨rfl, hlabel⟩ (hothers (e.1, b) hold)
          · exact congrArg (fun d => some d.2) heq.symm
      · rw [if_neg hkey, h.entry_iff]
        constructor
        · exact Or.imp_right fun ⟨hold, hlabel⟩ => ⟨.inl hold, hlabel⟩
        · rintro (hold | ⟨hold | rfl, hlabel⟩)
          · exact .inl hold
          · exact .inr ⟨hold, hlabel⟩
          · exact absurd ⟨rfl, hlabel.symm⟩ hkey

/-- **Placing an item** moves the cursor of its zone and adds its entry. -/
theorem placeItem_step {i : Item} (h : s.Bound es t) (hes : s.Fresh es)
    (hfree : i.PlacedWithoutLabels) (hplace : (t.placeItem i).result = .ok (s', p)) :
    p.item = i ∧ p.HasTable s ∧ s.Fresh (es ++ (p.entry? s).toList) ∧
      s.Bound (es ++ (p.entry? s).toList) s' ∧ ∃ next, s.Moves p (t.zones.get i.zone).cursor next ∧
        s'.zones = t.zones.set i.zone { t.zones.get i.zone with cursor := next } := by
  obtain ⟨rfl, next, warnings, hmoves, hbind⟩ := placeItem_moves hplace
  obtain ⟨htable, hfresh, hbound⟩ := (h.moved warnings hmoves).of_bindAddress hes hbind
  refine ⟨rfl, htable, hfresh, hbound, next, (h.continues.moves_iff hfree).mp hmoves, ?_⟩
  obtain ⟨scopes, named, rfl⟩ := bindAddress_eq_ok hbind
  rfl

/-- An item can be placed if the cursor of its zone can move and its entry can be added. -/
theorem exists_placeItem (h : s.Bound es t) (hes : s.Fresh es) (hfree : p.item.PlacedWithoutLabels)
    {next : Int} (hmoves : s.Moves p (t.zones.get p.item.zone).cursor next) (htable : p.HasTable s)
    (hfresh : s.Fresh (es ++ (p.entry? s).toList)) :
    ∃ s', (t.placeItem p.item).result = .ok (s', p) := by
  have hmoves' := (h.continues.moves_iff hfree).mpr hmoves
  refine exists_placeItem_of_moves hmoves' fun warnings => ?_
  have hmoved := h.moved warnings hmoves'
  refine exists_bindAddress (hmoved.continues.hasTable_iff.mpr htable) fun e he => ?_
  rw [hmoved.continues.entry?_eq] at he
  rw [he, Option.toList_some] at hfresh
  exact (hmoved.fresh_concat_iff hes e).mp hfresh

/-! ## Placing all items -/

/-- The placed items of a zone. -/
def inZone (z : ZoneId) (placed : List PlacedItem) : List PlacedItem :=
  placed.filter fun p => p.item.zone = z

/-- The entries that placed items add. -/
def newEntries (s : Session) (placed : List PlacedItem) : List (Table × Binding) :=
  placed.filterMap (PlacedItem.entry? s)

theorem newEntries_cons (p : PlacedItem) (placed : List PlacedItem) :
    s.newEntries (p :: placed) = (p.entry? s).toList ++ s.newEntries placed := by
  unfold newEntries
  cases hentry : p.entry? s with
  | none => rw [List.filterMap_cons_none hentry, Option.toList_none, List.nil_append]
  | some e => rw [List.filterMap_cons_some hentry, Option.toList_some, List.singleton_append]

/-- **What placing items does.** In each zone, the items take the cursor along; their entries are
added to the tables. -/
theorem placeAll_run {items : List Item} {placed : List PlacedItem} (h : s.Bound es t)
    (hes : s.Fresh es) (hfree : ∀ i ∈ items, i.PlacedWithoutLabels)
    (hzones : ∀ i ∈ items, i.zone < s.zones.toList.length)
    (hplace : (t.placeAll items).result = .ok (s', placed)) :
    placed.map PlacedItem.item = items ∧ (∀ p ∈ placed, p.HasTable s) ∧
      s.Fresh (es ++ s.newEntries placed) ∧
      s.Bound (es ++ s.newEntries placed) s' ∧ ∀ z < s.zones.toList.length,
        s.Advances (inZone z placed) (t.zones.get z).cursor (s'.zones.get z).cursor := by
  induction items generalizing t es placed with
  | nil =>
    cases hplace
    rw [newEntries, List.filterMap_nil, List.append_nil]
    exact ⟨rfl, List.forall_mem_nil _, hes, h, fun z _ => rfl⟩
  | cons i rest ih =>
    obtain ⟨⟨t₁, p⟩, hitem, hplace⟩ := Report.result_bind_eq_ok.mp hplace
    obtain ⟨⟨t₂, ps⟩, hrest, hplace⟩ := Report.result_bind_eq_ok.mp hplace
    cases hplace
    obtain ⟨hfreei, hfreerest⟩ := List.forall_mem_cons.mp hfree
    obtain ⟨hzonei, hzonerest⟩ := List.forall_mem_cons.mp hzones
    obtain ⟨rfl, htable, hfresh₁, hbound₁, next, hmoves, hmoved⟩ :=
      placeItem_step h hes hfreei hitem
    obtain ⟨hitems, htables, hfresh, hbound, hruns⟩ := ih hbound₁ hfresh₁ hfreerest hzonerest hrest
    rw [newEntries_cons, ← List.append_assoc]
    refine ⟨congrArg _ hitems, List.forall_mem_cons.mpr ⟨htable, htables⟩, hfresh, hbound,
      fun z hz => ?_⟩
    have hrun := hruns z hz
    have hlength := h.continues.ranges.length_eq
    rw [hmoved] at hrun
    by_cases hzone : p.item.zone = z
    · subst hzone
      rw [ZoneMap.get_set_self (hlength ▸ hz)] at hrun
      rw [inZone, List.filter_cons_of_pos (by simp)]
      exact ⟨next, hmoves, hrun⟩
    · rw [ZoneMap.get_set_of_ne hzone (hlength ▸ hz)] at hrun
      rwa [inZone, List.filter_cons_of_neg (by simpa using hzone)]

/-- Items can be placed if the items of each zone can take the cursor along, and all entries can be
added. -/
theorem exists_placeAll (placed : List PlacedItem) (h : s.Bound es t) (hes : s.Fresh es)
    (hfree : ∀ p ∈ placed, p.item.PlacedWithoutLabels)
    (hzones : ∀ p ∈ placed, p.item.zone < s.zones.toList.length)
    (htables : ∀ p ∈ placed, p.HasTable s) (hfresh : s.Fresh (es ++ s.newEntries placed))
    (hruns : ∀ z < s.zones.toList.length, ∃ last, s.Advances (inZone z placed)
      (t.zones.get z).cursor last) :
    ∃ s', (t.placeAll (placed.map PlacedItem.item)).result = .ok (s', placed) := by
  induction placed generalizing t es with
  | nil => exact ⟨t, rfl⟩
  | cons p rest ih =>
    obtain ⟨hfreep, hfreerest⟩ := List.forall_mem_cons.mp hfree
    obtain ⟨hzonep, hzonerest⟩ := List.forall_mem_cons.mp hzones
    obtain ⟨htablep, htablerest⟩ := List.forall_mem_cons.mp htables
    obtain ⟨last, hrun⟩ := hruns p.item.zone hzonep
    rw [inZone, List.filter_cons_of_pos (by simp)] at hrun
    obtain ⟨next, hmoves, hrun⟩ := hrun
    rw [newEntries_cons, ← List.append_assoc] at hfresh
    have hfresh₁ : s.Fresh (es ++ (p.entry? s).toList) :=
      ⟨fun e he => hfresh.free e (List.mem_append_left _ he),
        (List.pairwise_append.mp hfresh.apart).1⟩
    obtain ⟨t₁, hitem⟩ := exists_placeItem h hes hfreep hmoves htablep hfresh₁
    obtain ⟨-, -, -, hbound₁, next', hmoves', hmoved⟩ := placeItem_step h hes hfreep hitem
    cases hmoves.place_eq.symm.trans hmoves'.place_eq
    have hlength := h.continues.ranges.length_eq
    obtain ⟨t₂, hrest⟩ := ih hbound₁ hfresh₁ hfreerest hzonerest htablerest hfresh fun z hz => by
      rw [hmoved]
      by_cases hzone : p.item.zone = z
      · subst hzone
        rw [ZoneMap.get_set_self (hlength ▸ hz)]
        exact ⟨last, hrun⟩
      · obtain ⟨lastz, hrunz⟩ := hruns z hz
        rw [inZone, List.filter_cons_of_neg (by simpa using hzone)] at hrunz
        rw [ZoneMap.get_set_of_ne hzone (hlength ▸ hz)]
        exact ⟨lastz, hrunz⟩
    exact ⟨t₂, Report.result_bind_eq_ok.mpr ⟨_, hitem,
      Report.result_bind_eq_ok.mpr ⟨_, hrest, rfl⟩⟩⟩

/-- Entries may be added in any order. -/
theorem Fresh.perm {es' : List (Table × Binding)} (h : s.Fresh es) (hperm : es.Perm es') :
    s.Fresh es' where
  free e he := h.free e (hperm.mem_iff.mpr he)
  apart := (hperm.pairwise_iff fun hne h => hne ⟨h.1.symm, h.2.symm⟩).mp h.apart

/-- Sessions with the same new entries see the same labels. -/
theorem Bound.labels_eq {es' : List (Table × Binding)} (h : s.Bound es t) (h' : s.Bound es' s')
    (hperm : es.Perm es') (scope : ScopeId) (active : ActiveScopes) (label : String) :
    s'.env.labels scope active label = t.env.labels scope active label := by
  have hentry (table : Table) : s'.entry table label = t.entry table label := by
    refine Option.ext fun b => ?_
    rw [h.entry_iff, h'.entry_iff, hperm.mem_iff]
  rw [labels_eq_findSome?, labels_eq_findSome?, h.continues.same.seen_eq, h'.continues.same.seen_eq]
  simp only [hentry]

end Session

/-- **Zones are placed independently.** Let items be placed whose places depend on no labels. Then
every reordering that keeps the order in each zone can be placed. It gives every item the same
address and size, every label the same value, and every zone the same cursor. -/
theorem placeAll_reordered (s t : Session) (items items' : List Item) (placed : List PlacedItem)
    (hzones : ∀ i ∈ items, i.zone < s.zones.toList.length)
    (hfree : ∀ i ∈ items, i.PlacedWithoutLabels)
    (horder : ∀ z, items'.filter (fun i => i.zone = z) = items.filter fun i => i.zone = z)
    (h : (s.placeAll items).result = .ok (t, placed)) :
    ∃ t' placed', (s.placeAll items').result = .ok (t', placed') ∧
      placed'.map PlacedItem.item = items' ∧
      placed'.Perm placed ∧ (∀ z, Session.inZone z placed' = Session.inZone z placed) ∧
        t'.zones = t.zones ∧
      ∀ scope active label, t'.env.labels scope active label = t.env.labels scope active label := by
  have hstart : s.Fresh [] := ⟨List.forall_mem_nil _, .nil⟩
  obtain ⟨rfl, htables, hfresh, hbound, hruns⟩ :=
    Session.placeAll_run (.refl s) hstart hfree hzones h
  -- The placed items of each zone, in the new order.
  obtain ⟨placed', rfl, hparts⟩ := exists_map_eq_of_filter_eq (f := PlacedItem.item) Item.zone
    (fun z => Session.inZone z placed) fun z => by rw [horder z, List.filter_map]; rfl
  have hperm : placed'.Perm placed := perm_of_filter_eq hparts
  replace hparts : ∀ z, Session.inZone z placed' = Session.inZone z placed := hparts
  have hitems {q : PlacedItem} (hq : q ∈ placed') : q.item ∈ placed.map PlacedItem.item :=
    List.mem_map_of_mem (hperm.mem_iff.mp hq)
  obtain ⟨t', ht'⟩ :=
    Session.exists_placeAll placed' (.refl s) hstart (fun q hq => hfree _ (hitems hq))
    (fun q hq => hzones _ (hitems hq)) (fun q hq => htables q (hperm.mem_iff.mp hq))
    (hfresh.perm (hperm.symm.filterMap _)) fun z hz => ⟨_, (hparts z).symm ▸ hruns z hz⟩
  obtain ⟨-, -, -, hbound', hruns'⟩ := Session.placeAll_run (.refl s) hstart
    (fun i hi => hfree i ((hperm.map _).mem_iff.mp hi))
      (fun i hi => hzones i ((hperm.map _).mem_iff.mp hi)) ht'
  refine ⟨t', placed', ht', rfl, hperm, hparts, ?_,
    hbound.labels_eq hbound' (hperm.symm.filterMap _)⟩
  have hranges : t.zones.SameRanges t'.zones :=
    Eq.trans hbound'.continues.ranges (Eq.symm hbound.continues.ranges)
  refine hranges.eq (hbound'.continues.bits_eq.trans hbound.continues.bits_eq.symm) fun z hz => ?_
  rw [hbound.continues.ranges.length_eq] at hz
  have hrun' := hruns' z hz
  rw [hparts z] at hrun'
  exact hrun'.eq (hruns z hz)

/-- Two zones in turn, one of them inside the other, with labels for the whole program, for a file
and in a named scope: all items of the inner zone may be placed before those of the outer one. -/
theorem placeAll_reordered_inner_first :
    let isa := Isa.bare { size := 8, segment := 8, order := .big } (by decide) (by decide)
    let zone (name : String) (first last : Int) : Zone :=
      { name, bits := 8, first, last, cursor := first }
    let line : SourceLine := { file := some 0, name := "main.asm", number := 1 }
    let s : Session :=
      { isa, options := { warningsAsErrors := true },
        scopes := (ScopeTree.empty.openFile "main.asm").1,
        named := [{ name := "m", lead := "m_", definedAt := line }],
        zones := { bits := 8, global := zone "GLOBAL" 0 255, others := [zone "data" 8 15] },
        symbols := default, files := [], warnings := [] }
    let item (zone : ZoneId) (statement : Statement) : Item :=
      { line, text := "", comment := "", zone, scope := 1, active := ["m"], compilable := true,
        muted := false, statement }
    let outer : List Item :=
      [item 0 (.fill (.literal 3) (.literal 0)), item 0 (.align (some (.literal 4))),
        item 0 (.label "m_x"), item 0 (.fillUntil (.literal 5) (.literal 2)),
        item 0 (.label "_end")]
    let inner : List Item :=
      [item 1 (.label "start"), item 1 (.org (.literal 4) (some "data")), item 1 (.label "_x"),
        item 1 (.fill (.literal 4) (.literal 3)), item 1 (.label "m_end")]
    let items := (outer.zipWith (fun a b => [a, b]) inner).flatten
    ∃ t placed t' placed', (s.placeAll items).result = .ok (t, placed) ∧
      (s.placeAll (inner ++ outer)).result = .ok (t', placed') ∧ t'.zones = t.zones ∧
      (Session.inZone 1 placed').map PlacedItem.place =
        [⟨8, 0⟩, ⟨12, 0⟩, ⟨12, 0⟩, ⟨12, 4⟩, ⟨16, 0⟩] ∧
      ["start", "_x", "m_x", "_end", "m_end"].map (t'.env.labels 1 ["m"]) =
        [some 8, some 12, some 4, some 6, some 16] := by
  intro isa zone line s item outer inner items
  have hview : ((s.placeAll items).result.map fun r => ((Session.inZone 1 r.2).map PlacedItem.place,
      ["start", "_x", "m_x", "_end", "m_end"].map (r.1.env.labels 1 ["m"]))) =
      .ok ([⟨8, 0⟩, ⟨12, 0⟩, ⟨12, 0⟩, ⟨12, 4⟩, ⟨16, 0⟩],
        [some 8, some 12, some 4, some 6, some 16]) := by
    decide +kernel
  obtain ⟨⟨t, placed⟩, h, hview⟩ := map_eq_ok.mp hview
  obtain ⟨hplaces, hlabels⟩ := Prod.mk.inj hview
  have horder : ∀ z, (inner ++ outer).filter (fun i => i.zone = z) = items.filter fun i =>
      i.zone = z := by
    intro z
    rcases z with _ | _ | z
    · rfl
    · rfl
    · rfl
  obtain ⟨t', placed', h', -, -, hzone, hzones, hsame⟩ :=
    placeAll_reordered s t items (inner ++ outer) placed (by decide) (by decide) horder h
  refine ⟨t, placed, t', placed', h, h', hzones, by rw [hzone]; exact hplaces, ?_⟩
  rw [← hlabels]
  exact List.map_congr_left fun label _ => hsame 1 ["m"] label

end Retarget
