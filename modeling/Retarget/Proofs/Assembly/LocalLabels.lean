import Retarget.Proofs.Assembly.Tracking

/-!
# Local labels of a program

When all items have been placed, a local label means the same in a whole block of its file, and
nothing outside it. Loading has opened a scope for each block and bound the constants in it; the
first pass binds the labels.

* `Session.startsPlain_placeBlocks`: a run starts without local labels;
* `Session.Places`: the labels that the first pass binds;
* `Session.Loads.inBlock_cases`, `Session.Loads.opener_eq`: the scopes of loaded items are their
  blocks;
* `Job.firstPass`, `Job.result_assemble`: a run up to the end of the first pass, and from there on.
-/

namespace Retarget

/-! ## The start of a run -/

/-- There are no local labels yet. -/
structure ScopeTree.IsPlain (t : ScopeTree) : Prop where
  wellFormed : t.WellFormed
  lookup_eq_none : ∀ id (name : LocalName), t.lookup id name = none

theorem ScopeTree.isPlain_empty : empty.IsPlain where
  wellFormed := empty_wellFormed
  lookup_eq_none id name := by
    rw [Recorded.empty_nil.lookup_eq]
    simp

/-- The whole program is no block, so no local label can be bound in it. -/
theorem ScopeTree.IsPlain.bind {t t' : ScopeTree} (h : t.IsPlain) {label : String} {value : Int}
    {line : SourceLine} (hbind : t.bind globalId label value line = .ok t') : t'.IsPlain := by
  have hwell : t'.WellFormed := by
    obtain ⟨target, s, bindings, -, hs, -, rfl⟩ := bind_eq_ok hbind
    exact h.wellFormed.of_sameShape (sameShape_set hs bindings)
  refine ⟨hwell, fun id name => Option.eq_none_iff_forall_ne_some.mpr fun v hv => ?_⟩
  rcases (lookup_bind_local hbind).mp hv with hold | ⟨rfl, -, -⟩
  · rw [h.lookup_eq_none] at hold
    cases hold
  · obtain ⟨s, hs, htier, -⟩ := hwell.root
    have hblock := tierOf_of_lookup hv
    rw [tierOf_of_getElem? hs, htier] at hblock
    cases hblock

namespace Session

/-- A session that has loaded no file. -/
structure StartsPlain (s : Session) : Prop where
  isPlain : s.scopes.IsPlain
  named_eq : s.named = []
  files_eq : s.files = []

theorem startsPlain_start {isa : Isa} {options : Options} :
    Gives StartsPlain (Session.start isa options) := by
  intro s h
  obtain ⟨zones, -, h⟩ := bind_eq_ok.mp h
  obtain ⟨symbols, -, h⟩ := bind_eq_ok.mp h
  obtain ⟨scopes, hscopes, h⟩ := bind_eq_ok.mp h
  cases pure_eq_ok.mp h
  refine ⟨?_, rfl, rfl⟩
  have hplain := Gives.foldlM (P := ScopeTree.IsPlain) (f := fun t (c : Constant) =>
    t.bind ScopeTree.globalId c.name c.value (SourceLine.synthetic isa.name))
    (fun t c ht t' ht' => ht.bind ht') ScopeTree.isPlain_empty isa.constants
  exact hplain scopes (Error.liftAt_eq_ok.mp hscopes)

theorem startsPlain_placeBlocks {s : Session} (hs : s.StartsPlain) (blocks : List DataBlock) :
    Gives (fun r => StartsPlain r.1) (s.placeBlocks blocks) := by
  induction blocks generalizing s with
  | nil =>
    intro r hr
    cases hr
    exact hs
  | cons b rest ih =>
    intro r hr
    obtain ⟨⟨place, next⟩, -, hr⟩ := bind_eq_ok.mp hr
    obtain ⟨scopes, hbind, hr⟩ := bind_eq_ok.mp hr
    obtain ⟨r', hrest, hr⟩ := bind_eq_ok.mp hr
    cases pure_eq_ok.mp hr
    have hplain : StartsPlain { s with scopes } :=
      ⟨hs.isPlain.bind (Error.liftAt_eq_ok.mp hbind), hs.named_eq, hs.files_eq⟩
    exact ih hplain r' hrest

end Session

/-! ## The first pass -/

/-- The item gives its address to a local label. -/
def PlacedItem.GivesAddress (p : PlacedItem) (id : ScopeId) (name : LocalName) (v : Int) : Prop :=
  p.item.scope = id ∧ p.item.statement = .label name ∧ p.place.address = v

namespace Session

variable {s s' s'' : Session} {placed others : List PlacedItem}

/-- What placing items does to the labels of a session. -/
structure Places (s s' : Session) (placed : List PlacedItem) : Prop where
  noLocals : s'.named.NoLocals
  scopes : s.scopes.Extends s'.scopes
  adds : ScopeTree.Adds PlacedItem.GivesAddress s.scopes s'.scopes placed

theorem Places.append (h : s.Places s' placed) (h' : s'.Places s'' others) :
    s.Places s'' (placed ++ others) :=
  ⟨h'.noLocals, h.scopes.trans h'.scopes, h.adds.append h'.adds⟩

theorem placeItem_places {i : Item} {p : PlacedItem} (hs : s.named.NoLocals)
    (h : (s.placeItem i).result = .ok (s', p)) : s.Places s' [p] := by
  obtain ⟨next, zones, warnings, -, -, rfl, hbind⟩ := placeItem_eq_ok h
  unfold bindAddress Item.addressLabel? at hbind
  cases hstatement : p.item.statement with
  | label name =>
    rw [hstatement] at hbind
    dsimp only at hbind
    have hgives (id : ScopeId) (n : LocalName) (v : Int) :
        p.GivesAddress id n v ↔ p.item.scope = id ∧ name = n.val ∧ p.place.address = v := by
      simp [PlacedItem.GivesAddress, hstatement]
    obtain ⟨hnoLocals, hscopes, hadds⟩ :=
      adds_of_bindLabel (s := { s with zones, warnings }) hs (Error.liftAt_eq_ok.mp hbind) hgives
    exact ⟨hnoLocals, hscopes, hadds⟩
  | plain | constant | instruction | data | fill | fillUntil | align | org | setZone =>
    rw [hstatement] at hbind
    cases hbind
    exact ⟨hs, .refl _, .of_same (fun _ _ => rfl) (by simp [PlacedItem.GivesAddress, hstatement])⟩

theorem placeAll_places {items : List Item} (hs : s.named.NoLocals)
    (h : (s.placeAll items).result = .ok (s', placed)) :
    placed.map PlacedItem.item = items ∧ s.Places s' placed := by
  induction items generalizing s placed with
  | nil =>
    cases h
    exact ⟨rfl, hs, .refl _, .of_same (fun _ _ => rfl) (by simp)⟩
  | cons i items ih =>
    obtain ⟨⟨t, p⟩, hitem, h⟩ := Report.result_bind_eq_ok.mp h
    obtain ⟨⟨t', others⟩, hrest, h⟩ := Report.result_bind_eq_ok.mp h
    cases h
    have hfirst := placeItem_places hs hitem
    obtain ⟨hitems, hothers⟩ := ih hfirst.noLocals hrest
    obtain ⟨-, -, -, -, -, hitem, -⟩ := placeItem_eq_ok hitem
    exact ⟨by rw [List.map_cons, hitem, hitems], hfirst.append hothers⟩

end Session

/-! ## Scopes and blocks -/

/-- Two members of a list that are not apart are the same one. -/
theorem index_eq_of_pairwise {α : Type} {R : α → α → Prop} {xs : List α} {i j : Nat} {x y : α}
    (h : xs.Pairwise R) (hi : xs[i]? = some x) (hj : xs[j]? = some y) (hxy : ¬ R x y)
    (hyx : ¬ R y x) : i = j := by
  obtain ⟨hlt, rfl⟩ := List.getElem?_eq_some_iff.mp hi
  obtain ⟨hlt', rfl⟩ := List.getElem?_eq_some_iff.mp hj
  have hapart := List.pairwise_iff_getElem.mp h
  rcases Nat.lt_trichotomy i j with hless | heq | hless
  · exact absurd (hapart i j hlt hlt' hless) hxy
  · exact heq
  · exact absurd (hapart j i hlt' hlt hless) hyx

namespace Session

variable {s s' : Session}

namespace Loads

variable {items : List Item} {k m m' j : Nat} {i i' o : Item}

/-- The scope of an item is that of the label that opens its block, and no block outside all of
them. -/
theorem inBlock_cases (h : s.Loads s' items) (hk : items[k]? = some i) :
    (∃ m o, InBlock items m k ∧ items[m]? = some o ∧ i.scope = o.scope) ∨
      (∀ m, ¬ InBlock items m k) ∧ s'.scopes.tierOf i.scope = .file := by
  obtain ⟨n, hle, hlt, hfile⟩ := h.file i (List.mem_of_getElem? hk)
  obtain ⟨fileScope, htier, htracked⟩ := h.tracks n hle hlt
  rcases htracked.inBlock_cases hk hfile with hinside | ⟨hnone, hscope⟩
  · exact .inl hinside
  · exact .inr ⟨hnone, by rw [hscope, htier]⟩

/-- All items of a block have the scope of the label that opens it. -/
theorem scope_eq (h : s.Loads s' items) (hblock : InBlock items m k) (hk : items[k]? = some i)
    (hm : items[m]? = some o) : i.scope = o.scope := by
  rcases h.inBlock_cases hk with ⟨m', o', hblock', hm', hscope⟩ | ⟨hnone, -⟩
  · cases hblock.opener_eq hblock'
    cases hm.symm.trans hm'
    exact hscope
  · exact absurd hblock (hnone m)

/-- Items with one scope are in one block. -/
theorem opener_eq (h : s.Loads s' items) (hblock : InBlock items m k) (hblock' : InBlock items m' j)
    (hk : items[k]? = some i) (hj : items[j]? = some i') (hscope : i.scope = i'.scope) :
    m = m' := by
  obtain ⟨-, o, hm, hopens, -⟩ := id hblock
  obtain ⟨-, o', hm', hopens', -⟩ := id hblock'
  have hsame : o.scope = o'.scope :=
    (h.scope_eq hblock hk hm).symm.trans (hscope.trans (h.scope_eq hblock' hj hm'))
  exact index_eq_of_pairwise h.grows.distinct hm hm' (fun hne => hne hopens hopens' hsame)
    fun hne => hne hopens' hopens hsame.symm

end Loads

end Session

/-! ## Runs -/

/-- The label that an item defines, and its value. -/
def PlacedItem.definition? (p : PlacedItem) : Option (String × Int) :=
  match p.item.statement with
  | .constant name v => some (name, v)
  | .label name => some (name, p.place.address)
  | _ => none

theorem PlacedItem.gives_iff {p : PlacedItem} {id : ScopeId} {name : LocalName} {v : Int} :
    p.item.scope = id ∧ p.definition? = some (name.val, v) ↔
      p.item.GivesConstant id name v ∨ p.GivesAddress id name v := by
  unfold definition? Item.GivesConstant GivesAddress
  cases p.item.statement <;> simp

namespace Job

/-- A run up to the end of the first pass: the session, the items of the source files and those of
the blocks that the instruction set defines. -/
def firstPass (j : Job) (isa : Isa) : Except Error (Session × List PlacedItem × List PlacedItem) :=
  do
  let place ← Error.lift <|
    (j.tree.resolve j.directory j.source).mapError (ProgramError.cannotOpen j.source)
  let s ← Session.start isa j.options
  let (s, blocks) ← s.placeBlocks isa.blocks
  let loaded ←
    (Loading.loadFile j.tree (j.searchDirectories place)
      (j.tree.files.length + 1) s place none).result
  let (s, placed) ← (loaded.session.placeAll (loaded.items.filter Item.compilable)).result
  return (s, placed, blocks)

/-- A run goes on from its first pass. -/
theorem result_assemble (j : Job) (isa : Isa) : (j.assemble isa).result = do
    let (s, placed, blocks) ← j.firstPass isa
    let (s, items) ← (s.code (sortItems (placed ++ blocks))).result
    let words ← Error.lift (Image.words isa j.options items)
    return { items, image := wordsToBytes words true, start := j.options.start.getD 0,
             wordSize := isa.wordSize, warnings := s.warnings.map Warning.render } := by
  unfold assemble firstPass
  simp only [Report.result_bind, Report.result_ofExcept, Session.result_log, ok_bind,
    bind_assoc, pure_bind]
  rfl

theorem firstPass_eq_ok {j : Job} {isa : Isa} {t : Session} {placed blocks : List PlacedItem}
    (h : j.firstPass isa = .ok (t, placed, blocks)) :
    ∃ s s' : Session, s.StartsPlain ∧ s.Loads s' (placed.map PlacedItem.item) ∧
      s'.Places t placed := by
  obtain ⟨place, -, h⟩ := bind_eq_ok.mp h
  obtain ⟨s₀, hstart, h⟩ := bind_eq_ok.mp h
  obtain ⟨⟨s, blocks'⟩, hblocks, h⟩ := bind_eq_ok.mp h
  obtain ⟨loaded, hloaded, h⟩ := bind_eq_ok.mp h
  obtain ⟨⟨t', placed'⟩, hplaced, h⟩ := bind_eq_ok.mp h
  cases pure_eq_ok.mp h
  have hs := Session.startsPlain_placeBlocks
    (Session.startsPlain_start s₀ hstart) isa.blocks _ hblocks
  have hnoLocals : s.named.NoLocals := by
    rw [hs.named_eq]
    exact List.forall_mem_nil _
  have hnew : s.files.find? place.render = none := by
    rw [hs.files_eq]
    rfl
  have hloads : s.Loads loaded.session (loaded.items.filter Item.compilable) :=
    Loading.loadFile_loads _ s place none hnoLocals hnew loaded hloaded
  obtain ⟨hitems, hplaces⟩ := Session.placeAll_places hloads.grows.noLocals hplaced
  rw [← hitems] at hloads
  exact ⟨s, loaded.session, hs, hloads, hplaces⟩

end Job

namespace Session

variable {s s' t : Session} {placed : List PlacedItem} {k : Nat} {p : PlacedItem} {name : LocalName}

theorem getElem?_map_item (hk : placed[k]? = some p) :
    (placed.map PlacedItem.item)[k]? = some p.item := by
  rw [List.getElem?_map, hk]
  rfl

/-- The local labels of a scope are those that its items define. -/
theorem lookup_local_iff (hs : s.StartsPlain) (hloads : s.Loads s' (placed.map PlacedItem.item))
    (hplaces : s'.Places t placed) {id : ScopeId} {v : Int} :
    t.scopes.lookup id name = some v ↔
      ∃ p ∈ placed, p.item.scope = id ∧ p.definition? = some (name.val, v) := by
  rw [hplaces.adds.lookup_iff, hloads.grows.adds.lookup_iff, hs.isPlain.lookup_eq_none]
  simp only [PlacedItem.gives_iff, and_or_left, exists_or, List.mem_map,
    exists_exists_and_eq_and, reduceCtorEq, false_or]

/-- No scope has two items that define the same local label. -/
theorem definition_once (hloads : s.Loads s' (placed.map PlacedItem.item))
    (hplaces : s'.Places t placed) :
    placed.Pairwise fun p q => ∀ (name : LocalName) v w, p.item.scope = q.item.scope →
      p.definition? = some (name.val, v) → q.definition? ≠ some (name.val, w) := by
  have hconstants := List.pairwise_map.mp hloads.grows.adds.once
  refine (hconstants.and hplaces.adds.once).imp_of_mem ?_
  rintro p q hp hq ⟨hconstant, haddress⟩ name v w hscope hpdef hqdef
  -- A label is bound after all constants, so it cannot have the name of one of them.
  have hapart {p q : PlacedItem} (hp : p ∈ placed) (hq : q ∈ placed) {id : ScopeId} {v w : Int}
      (hpgives : p.item.GivesConstant id name v) (hqgives : q.GivesAddress id name w) : False := by
    have hnone := hplaces.adds.fresh q hq id name w hqgives
    have hsome := (hloads.grows.adds.lookup_iff id name v).mpr
      (.inr ⟨p.item, List.mem_map_of_mem hp, hpgives⟩)
    rw [hnone] at hsome
    cases hsome
  rcases PlacedItem.gives_iff.mp ⟨hscope, hpdef⟩ with hpgives | hpgives <;>
    rcases PlacedItem.gives_iff.mp ⟨rfl, hqdef⟩ with hqgives | hqgives
  · exact hconstant _ name v w hpgives hqgives
  · exact hapart hp hq hpgives hqgives
  · exact hapart hq hp hqgives hpgives
  · exact haddress _ name v w hpgives hqgives

/-- Where a local label has a value, there is a block. -/
theorem exists_inBlock (hloads : s.Loads s' (placed.map PlacedItem.item))
    (hplaces : s'.Places t placed) (hk : placed[k]? = some p)
    (htier : t.scopes.tierOf p.item.scope = .block) :
    ∃ m, InBlock (placed.map PlacedItem.item) m k := by
  rcases hloads.inBlock_cases (getElem?_map_item hk) with ⟨m, -, hblock, -⟩ | ⟨-, hfile⟩
  · exact ⟨m, hblock⟩
  · rw [hplaces.scopes.keeps hfile Tier.noConfusion] at htier
    cases htier

/-- Two items are of one block exactly if they have the same scope, and this is the scope of a
block. -/
theorem exists_inBlock_iff (hloads : s.Loads s' (placed.map PlacedItem.item))
    (hplaces : s'.Places t placed) {i : Nat} {q : PlacedItem} (hk : placed[k]? = some p)
    (hi : placed[i]? = some q) :
    (∃ m, InBlock (placed.map PlacedItem.item) m k ∧ InBlock (placed.map PlacedItem.item) m i) ↔
      q.item.scope = p.item.scope ∧ t.scopes.tierOf p.item.scope = .block := by
  have hk' := getElem?_map_item hk
  have hi' := getElem?_map_item hi
  constructor
  · rintro ⟨m, hblock, hblock'⟩
    obtain ⟨-, o, hm, hopens, -⟩ := id hblock
    have hscope := hloads.scope_eq hblock hk' hm
    have htier := (hloads.grows.opened o (List.mem_of_getElem? hm) hopens).2
    refine ⟨(hloads.scope_eq hblock' hi' hm).trans hscope.symm, ?_⟩
    rw [hscope]
    exact hplaces.scopes.keeps htier Tier.noConfusion
  · rintro ⟨hscope, htier⟩
    obtain ⟨m, hblock⟩ := exists_inBlock hloads hplaces hk htier
    obtain ⟨m', hblock'⟩ := exists_inBlock hloads hplaces hi (by rwa [hscope])
    cases hloads.opener_eq hblock hblock' hk' hi' hscope.symm
    exact ⟨m, hblock, hblock'⟩

/-- A local label has the value that is given to it in the block. -/
theorem labels_eq_some_iff (hs : s.StartsPlain) (hloads : s.Loads s' (placed.map PlacedItem.item))
    (hplaces : s'.Places t placed) (hk : placed[k]? = some p) {v : Int} :
    p.item.labels t.env name = some v ↔ ∃ m i q, InBlock (placed.map PlacedItem.item) m k ∧
      InBlock (placed.map PlacedItem.item) m i ∧ placed[i]? = some q ∧
        q.definition? = some (name.val, v) := by
  rw [Item.labels, labels_local hplaces.noLocals]
  constructor
  · intro hv
    have htier := ScopeTree.tierOf_of_lookup hv
    obtain ⟨q, hq, hscope, hdefinition⟩ := (lookup_local_iff hs hloads hplaces).mp hv
    obtain ⟨i, hi⟩ := List.mem_iff_getElem?.mp hq
    obtain ⟨m, hblock, hblock'⟩ := (exists_inBlock_iff hloads hplaces hk hi).mpr ⟨hscope, htier⟩
    exact ⟨m, i, q, hblock, hblock', hi, hdefinition⟩
  · rintro ⟨m, i, q, hblock, hblock', hi, hdefinition⟩
    obtain ⟨hscope, -⟩ := (exists_inBlock_iff hloads hplaces hk hi).mp ⟨m, hblock, hblock'⟩
    exact (lookup_local_iff hs hloads hplaces).mpr ⟨q, List.mem_of_getElem? hi, hscope, hdefinition⟩

/-- A block defines a local label once. -/
theorem index_eq_of_definition (hloads : s.Loads s' (placed.map PlacedItem.item))
    (hplaces : s'.Places t placed) {m i : Nat} {q : PlacedItem} {v w : Int}
    (hblock : InBlock (placed.map PlacedItem.item) m k)
    (hblock' : InBlock (placed.map PlacedItem.item) m i) (hk : placed[k]? = some p)
    (hi : placed[i]? = some q) (hp : p.definition? = some (name.val, v))
    (hq : q.definition? = some (name.val, w)) : k = i := by
  obtain ⟨hscope, -⟩ := (exists_inBlock_iff hloads hplaces hk hi).mp ⟨m, hblock, hblock'⟩
  exact index_eq_of_pairwise (definition_once hloads hplaces) hk hi
    (fun honce => honce name v w hscope.symm hp hq) fun honce => honce name w v hscope hq hp

end Session

theorem Term.eval_label_eq_ok {labels : Labels} {name : String} {v : Int} :
    (Term.label name).eval labels = .ok v ↔ labels name = some v := by
  rw [eval]
  cases labels name <;> simp

theorem Term.eval_label_eq_error {labels : Labels} {name : String} :
    (Term.label name).eval labels = .error (.unknownLabel name) ↔ labels name = none := by
  rw [eval]
  cases labels name <;> simp

/-- **Local labels belong to blocks.** Let a program have gone through the first pass, and take an
item of it. A local label in the item has a value exactly if an item of the same block defines it,
and then it has the value given there; otherwise it is unknown. No two items of a block define the
same local label. The words of the program are made with these labels. Named scopes, included files
and the labels of other blocks do not matter. -/
theorem eval_local_label (j : Job) (isa : Isa) (t : Session) (placed blocks : List PlacedItem)
    (h : j.firstPass isa = .ok (t, placed, blocks)) :
    let items := placed.map PlacedItem.item
    (∀ k p (name : LocalName), placed[k]? = some p →
      (∀ v, (Term.label name).eval (p.item.labels t.env) = .ok v ↔
        ∃ m i q, InBlock items m k ∧ InBlock items m i ∧ placed[i]? = some q ∧
          q.definition? = some (name.val, v)) ∧
      ((∀ m i q v, InBlock items m k → InBlock items m i → placed[i]? = some q →
          q.definition? ≠ some (name.val, v)) ↔
        (Term.label name).eval (p.item.labels t.env) = .error (.unknownLabel name))) ∧
    (∀ m i i' q q' (name : LocalName) v v', InBlock items m i → InBlock items m i' →
      placed[i]? = some q → placed[i']? = some q' → q.definition? = some (name.val, v) →
      q'.definition? = some (name.val, v') → i = i') ∧
    ∀ program, (j.assemble isa).result = .ok program →
      List.Forall₂ (CodedFrom t.env) (Job.sortItems (placed ++ blocks)) program.items := by
  intro items
  obtain ⟨s, s', hs, hloads, hplaces⟩ := Job.firstPass_eq_ok h
  refine ⟨fun k p name hk => ?_, ?_, fun program hprogram => ?_⟩
  · have hlabels (v : Int) : p.item.labels t.env name = some v ↔ _ :=
      Session.labels_eq_some_iff hs hloads hplaces hk
    refine ⟨fun v => by rw [Term.eval_label_eq_ok, hlabels], ?_⟩
    rw [Term.eval_label_eq_error, Option.eq_none_iff_forall_ne_some]
    constructor
    · intro hnone v hv
      obtain ⟨m, i, q, hblock, hblock', hi, hdefinition⟩ := (hlabels v).mp hv
      exact hnone m i q v hblock hblock' hi hdefinition
    · intro hnone m i q v hblock hblock' hi hdefinition
      exact hnone v ((hlabels v).mpr ⟨m, i, q, hblock, hblock', hi, hdefinition⟩)
  · intro m i i' q q' name v v' hblock hblock' hi hi' hq hq'
    exact Session.index_eq_of_definition hloads hplaces hblock hblock' hi hi' hq hq'
  · rw [Job.result_assemble, h, ok_bind] at hprogram
    obtain ⟨⟨s, coded⟩, hcode, hprogram⟩ := bind_eq_ok.mp hprogram
    obtain ⟨words, -, hprogram⟩ := bind_eq_ok.mp hprogram
    cases pure_eq_ok.mp hprogram
    exact Session.codeAll_codedFrom (Session.code_eq_ok.mp hcode).1

/-- A program of two files, each given by its lines. -/
def Job.ofTwoFiles (main library : List String) : Job :=
  { tree :=
      { files := [(["main.asm"], some ("\n".intercalate main)),
        (["lib.asm"], some ("\n".intercalate library))],
        directories := [] },
    directory := [], source := "main.asm", options := {} }

/-- The item at `i` defines a label in the block of the item at `k`, which the one at `m` opens. -/
def DefinedAt (placed : List PlacedItem) (k m i : Nat) (name : String) (v : Int) : Prop :=
  InBlock (placed.map PlacedItem.item) m k ∧ InBlock (placed.map PlacedItem.item) m i ∧
    placed[i]?.bind PlacedItem.definition? = some (name, v)

instance (placed : List PlacedItem) (k m i : Nat) (name : String) (v : Int) :
    Decidable (DefinedAt placed k m i name v) := inferInstanceAs (Decidable (_ ∧ _))

/-- Three blocks of two files define the same local label, as a label and as a constant. One of the
files is included inside a block of the other one, and a named scope is active; after an origin, the
label is unknown. -/
theorem eval_local_label_two_files :
    let isa := Isa.bare { size := 8, segment := 8, order := .big } (by decide) (by decide)
    let j := Job.ofTwoFiles
      ["#create-scope \"m\" prefix=\"m_\"", "first: .byte 1", ".x: .byte .x",
        "#include \"lib.asm\"", ".fill 1, .x", "m_second:", ".x = 7", ".byte .x",
        ".org 32", ".byte .x"]
      ["third: .byte 3", ".x: .byte .x"]
    ∃ t placed blocks, j.firstPass isa = .ok (t, placed, blocks) ∧
      [3, 7, 8, 11, 13].map (fun k => placed[k]?.map fun p =>
          (Term.label ".x").eval (p.item.labels t.env)) =
        [some (.ok 1), some (.ok 3), some (.ok 1), some (.ok 7),
          some (.error (.unknownLabel ".x"))] := by
  intro isa j
  have hview : ((j.firstPass isa).toOption.map fun r => decide (
      DefinedAt r.2.1 3 0 2 ".x" 1 ∧ DefinedAt r.2.1 7 4 6 ".x" 3 ∧ DefinedAt r.2.1 8 0 2 ".x" 1 ∧
      DefinedAt r.2.1 11 9 10 ".x" 7 ∧ r.2.1.length = 14 ∧
      ∀ m ≤ 13, ¬ InBlock (r.2.1.map PlacedItem.item) m 13)) = some true := by decide +kernel
  obtain ⟨⟨t, placed, blocks⟩, hpass, hview⟩ := Option.map_eq_some_iff.mp hview
  obtain ⟨h₃, h₇, h₈, h₁₁, hlength, hnone⟩ := of_decide_eq_true hview
  have h := toOption_eq_some.mp hpass
  obtain ⟨hvalue, -, -⟩ := eval_local_label j isa t placed blocks h
  let x : LocalName := ⟨".x", by decide⟩
  have hfound {k m i : Nat} {v : Int} (hk : k <
      placed.length) (hdefined : DefinedAt placed k m i ".x" v) :
      (placed[k]?.map fun p => (Term.label ".x").eval (p.item.labels t.env)) = some (.ok v) := by
    obtain ⟨hblock, hblock', hdefinition⟩ := hdefined
    obtain ⟨q, hi, hdefinition⟩ := Option.bind_eq_some_iff.mp hdefinition
    rw [List.getElem?_eq_getElem hk, Option.map_some]
    exact congrArg some (((hvalue k _ x (List.getElem?_eq_getElem hk)).1 v).mpr
      ⟨m, i, q, hblock, hblock', hi, hdefinition⟩)
  refine ⟨t, placed, blocks, h, ?_⟩
  replace hlength : placed.length = 14 := hlength
  have hlast : 13 < placed.length := by omega
  have hunknown := ((hvalue 13 _ x (List.getElem?_eq_getElem hlast)).2).mp
    fun m _ _ _ hblock => absurd hblock (hnone m hblock.1)
  simp only [List.map_cons, List.map_nil, hfound (by omega) h₃, hfound (by omega) h₇,
    hfound (by omega) h₈, hfound (by omega) h₁₁, List.getElem?_eq_getElem hlast, Option.map_some]
  rw [hunknown]

end Retarget
