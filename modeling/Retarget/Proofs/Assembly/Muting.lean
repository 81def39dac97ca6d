import Retarget.Proofs.Assembly.Window

/-!
# Muting

A muted item takes up its space and is not shown. Neither pass looks at the flag: items that differ
in it only get the same places, labels, words, warnings and errors. An image looks at it, and there
the flag decides between the word of the item and the fill word.

* `Item.unmuted`, `PlacedItem.unmuted`, `CodedItem.unmuted`: what is left of an item without its
  flag;
* `Session.placeAll_unmuted`, `Session.code_unmuted`: the passes on items without their flags;
* `Image.DifferWhereMuted`: two images of items that differ in the flag only.
-/

namespace Retarget

/-- An item without its flag. -/
def Item.unmuted (i : Item) : Item := { i with muted := false }

/-- A placed item without its flag. -/
def PlacedItem.unmuted (p : PlacedItem) : PlacedItem := { p with item := p.item.unmuted }

/-- An item with its words, without its flag. -/
def CodedItem.unmuted (c : CodedItem) : CodedItem := { c with item := c.item.unmuted }

namespace Report

variable {α β γ : Type}

/-- Change what a step gives, and neither its messages nor its error. -/
def map (f : α → β) (r : Report α) : Report β :=
  { messages := r.messages, result := r.result.map f }

theorem map_bind (r : Report α) (g : α → Report β) (f : β → γ) :
    (r >>= g).map f = r >>= fun a => (g a).map f := by
  obtain ⟨messages, result⟩ := r
  cases result with
  | error e => rfl
  | ok a => rfl

theorem bind_map (r : Report α) (f : α → β) (g : β → Report γ) :
    r.map f >>= g = r >>= fun a => g (f a) := by
  obtain ⟨messages, result⟩ := r
  cases result with
  | error e => rfl
  | ok a => rfl

theorem map_pure (a : α) (f : α → β) : (pure a : Report α).map f = pure (f a) := rfl

end Report

/-! ## The passes -/

namespace Session

/-- The flags are left out of what a pass gives. -/
def unmuteItems {α : Type} (unmuted : α → α) (r : Session × List α) : Session × List α :=
  (r.1, r.2.map unmuted)

theorem placeItem_unmuted (s : Session) (i : Item) :
    s.placeItem i.unmuted = (s.placeItem i).map fun r => (r.1, r.2.unmuted) := by
  simp only [placeItem, Report.map_bind, Report.map_pure]
  rfl

theorem placeAll_unmuted (s : Session) (items : List Item) :
    s.placeAll (items.map Item.unmuted) =
      (s.placeAll items).map (unmuteItems PlacedItem.unmuted) := by
  induction items generalizing s with
  | nil => rfl
  | cons i rest ih =>
    simp only [List.map_cons, placeAll, placeItem_unmuted, ih, Report.map_bind, Report.bind_map,
      Report.map_pure]
    rfl

theorem codeAll_unmuted (s : Session) (placed : List PlacedItem) :
    s.codeAll (placed.map PlacedItem.unmuted) =
      (s.codeAll placed).map (unmuteItems CodedItem.unmuted) := by
  induction placed generalizing s with
  | nil => rfl
  | cons p rest ih =>
    simp only [List.map_cons, codeAll, ih, Report.map_bind, Report.bind_map, Report.map_pure]
    rfl

end Session

/-- Items overlap with their flags as without them. -/
theorem checkOverlaps_unmuted (previous : Option CodedItem) (items : List CodedItem) :
    checkOverlaps (previous.map CodedItem.unmuted) (items.map CodedItem.unmuted) =
      checkOverlaps previous items := by
  induction items generalizing previous with
  | nil => rfl
  | cons i rest ih =>
    have hsome := ih (some i)
    simp only [Option.map_some] at hsome
    simp only [List.map_cons, checkOverlaps, ih, hsome]
    cases previous with
    | none => rfl
    | some p =>
      simp only [Option.map_some, Option.filter_some]
      by_cases hbefore : i.address < p.stop
      · have hbefore' : i.unmuted.address < p.unmuted.stop := hbefore
        simp only [hbefore, hbefore', decide_true, if_true]
        rfl
      · have hbefore' : ¬ i.unmuted.address < p.unmuted.stop := hbefore
        simp only [hbefore, hbefore', decide_false]
        rfl

theorem Session.code_unmuted (s : Session) (placed : List PlacedItem) :
    s.code (placed.map PlacedItem.unmuted) =
      (s.code placed).map (unmuteItems CodedItem.unmuted) := by
  have hcheck (coded : List CodedItem) :
      checkOverlaps none (coded.map CodedItem.unmuted) = checkOverlaps none coded :=
    checkOverlaps_unmuted none coded
  simp only [code, codeAll_unmuted, Report.map_bind, Report.bind_map, Report.map_pure,
    unmuteItems, hcheck]

theorem Job.sortItems_unmuted (placed : List PlacedItem) :
    Job.sortItems (placed.map PlacedItem.unmuted) = (Job.sortItems placed).map PlacedItem.unmuted :=
  (List.map_mergeSort (f := PlacedItem.unmuted) fun _ _ _ _ => rfl).symm

/-! ## Images -/

namespace Image

variable {fill : Word} {a : Int} {coded coded' : List CodedItem} {c : CodedItem}

theorem lastAddress_unmuted (coded : List CodedItem) :
    lastAddress (coded.map CodedItem.unmuted) = lastAddress coded := by
  have hwords : CodedItem.hasWords ∘ CodedItem.unmuted = CodedItem.hasWords := rfl
  rw [lastAddress, List.filter_map, List.map_map, hwords]
  rfl

/-- Where a shown item is, there is its word. -/
theorem wordAt_visible_of_shown (hapart : coded.Pairwise fun a b => a.place.Apart b.place)
    (hc : c ∈ coded) (hcovers : c.place.Covers a) (hshown : c.item.muted = false) :
    wordAt fill (visible coded) a = c.words.getD (a - c.address).toNat fill :=
  wordAt_of_covers (hapart.filter _) (mem_visible.mpr ⟨hc, hcovers.wordCount_pos, hshown⟩) hcovers

/-- Where a muted item is, there is the fill word. -/
theorem wordAt_visible_of_muted (hapart : coded.Pairwise fun a b => a.place.Apart b.place)
    (hc : c ∈ coded) (hcovers : c.place.Covers a) (hmuted : c.item.muted = true) :
    wordAt fill (visible coded) a = fill := by
  refine wordAt_of_forall_not_covers fun d hd hcovers' => ?_
  obtain ⟨hmem, -, hshown⟩ := mem_visible.mp hd
  have hcd : c = d := eq_of_covers hapart hc hmem hcovers hcovers'
  rw [← hcd, hmuted] at hshown
  cases hshown

/-- The images `words` and `words'` of two lists of items have the same length, they are equal where
there are no items at the same position of both lists with different flags, and where there is a
muted item, its image has the fill word. -/
structure DifferWhereMuted (fill : Except BitsError Word) (coded coded' : List CodedItem)
    (words words' : List Word) : Prop where
  length_eq : words.length = words'.length
  eq_elsewhere : ∀ a : Nat,
    (∀ (k : Nat) (c c' : CodedItem), coded[k]? = some c → coded'[k]? = some c' →
    c.place.Covers a → c.item.muted = c'.item.muted) → words[a]? = words'[a]?
  fill_of_muted : ∀ c ∈ coded, c.item.muted = true → ∀ a : Nat, c.place.Covers a →
    words[a]? = fill.toOption
  fill_of_muted' : ∀ c ∈ coded', c.item.muted = true → ∀ a : Nat, c.place.Covers a →
    words'[a]? = fill.toOption

/-- Of items that differ in the flag only, those at the same position have the same place and
words. -/
theorem exists_unmuted_eq (h : coded.map CodedItem.unmuted = coded'.map CodedItem.unmuted) {k : Nat}
    (hk : coded[k]? = some c) :
    ∃ c', coded'[k]? = some c' ∧ c'.place = c.place ∧ c'.words = c.words := by
  have hsame : (coded'.map CodedItem.unmuted)[k]? = some c.unmuted := by
    rw [← h, List.getElem?_map, hk, Option.map_some]
  rw [List.getElem?_map] at hsame
  obtain ⟨c', hk', hc'⟩ := Option.map_eq_some_iff.mp hsame
  exact ⟨c', hk', (congrArg CodedItem.place hc' :), (congrArg CodedItem.words hc' :)⟩

/-- Where the flags are the same, the memory maps are. -/
theorem wordAt_visible_eq (h : coded.map CodedItem.unmuted = coded'.map CodedItem.unmuted)
    (hapart : coded.Pairwise fun a b => a.place.Apart b.place)
    (hapart' : coded'.Pairwise fun a b => a.place.Apart b.place) (fill : Word)
    (hflags : ∀ (k : Nat) (c c' : CodedItem), coded[k]? = some c → coded'[k]? = some c' →
      c.place.Covers a → c.item.muted = c'.item.muted) :
    wordAt fill (visible coded) a = wordAt fill (visible coded') a := by
  by_cases hany : ∃ c ∈ coded, c.place.Covers a
  · obtain ⟨c, hc, hcovers⟩ := hany
    obtain ⟨k, hk⟩ := List.mem_iff_getElem?.mp hc
    obtain ⟨c', hk', hplace, hwords⟩ := exists_unmuted_eq h hk
    have hc' : c' ∈ coded' := List.mem_of_getElem? hk'
    have hcovers' : c'.place.Covers a := hplace ▸ hcovers
    have hflag := hflags k c c' hk hk' hcovers
    cases hmuted : c.item.muted with
    | true =>
      rw [wordAt_visible_of_muted hapart hc hcovers hmuted,
        wordAt_visible_of_muted hapart' hc' hcovers' (hflag ▸ hmuted)]
    | false =>
      rw [wordAt_visible_of_shown hapart hc hcovers hmuted,
        wordAt_visible_of_shown hapart' hc' hcovers' (hflag ▸ hmuted), CodedItem.address,
        CodedItem.address, hplace, hwords]
  · -- No item is there, so no shown one is.
    have hnone : ∀ c' ∈ coded', ¬ c'.place.Covers a := by
      intro c' hc' hcovers
      obtain ⟨k, hk'⟩ := List.mem_iff_getElem?.mp hc'
      obtain ⟨c, hk, hplace, -⟩ := exists_unmuted_eq h.symm hk'
      exact hany ⟨c, List.mem_of_getElem? hk, hplace ▸ hcovers⟩
    rw [wordAt_of_forall_not_covers fun c hc hcovers => hany ⟨c, (mem_visible.mp hc).1, hcovers⟩,
      wordAt_of_forall_not_covers fun c hc => hnone c (mem_visible.mp hc).1]

/-- Items without words have an empty image. -/
theorem words_of_lastAddress_eq_none {isa : Isa} {options : Options} (hstop : options.stop = none)
    (h : lastAddress coded = none) : words isa options coded = .ok [] := by
  rw [words, hstop, h]
  rfl

variable {env : Environment} {options : Options} {placed placed' : List PlacedItem}

/-- Items that pass have an image, which is their memory map. -/
theorem exists_words_eq_span (hfrom : List.Forall₂ (CodedFrom env) (Job.sortItems placed) coded)
    (hcheck : checkOverlaps none coded = .ok ()) (haddress : ∀ p ∈ placed, 0 ≤ p.place.address)
    (hstart : options.start = none) (hstop : options.stop = none) {last : Int}
    (hlast : lastAddress coded = some last) :
    ∃ fill, fillWord env.isa options.fill = .ok fill ∧
      words env.isa options coded =
        .ok (span (wordAt fill (visible coded)) 0 (last.toNat + 1)) := by
  have hitems := visible_writable hfrom hcheck haddress hlast
  obtain ⟨c, hc, hcovers⟩ := (lastAddress_isGreatest hlast).1
  obtain ⟨p, hp, hcp⟩ := exists_of_forall₂_right hfrom hc
  have hnonneg : 0 ≤ last := by
    have hfirst := haddress p (Job.mem_sortItems.mp hp)
    rw [← hcp.place_eq] at hfirst
    exact Int.le_trans hfirst hcovers.1
  obtain ⟨last, rfl⟩ := Int.eq_ofNat_of_zero_le hnonneg
  obtain ⟨fill, hfill, -⟩ := exists_fillWord (hcp.wordSize_le hcovers.wordCount_pos) options.fill
  exact ⟨fill, hfill, words_eq_span hstart hstop hlast hfill hitems⟩

/-- A muted item has the fill word in the image of items that pass. -/
theorem getElem?_span_of_muted (hapart : coded.Pairwise fun a b => a.place.Apart b.place)
    {last : Int} (hlast : lastAddress coded = some last) (hc : c ∈ coded)
    (hmuted : c.item.muted = true) {a : Nat} (hcovers : c.place.Covers a) :
    (span (wordAt fill (visible coded)) 0 (last.toNat + 1))[a]? = some fill := by
  have hle : (a : Int) ≤ last := (lastAddress_isGreatest hlast).2 ⟨c, hc, hcovers⟩
  rw [getElem?_span (by omega), Int.zero_add, wordAt_visible_of_muted hapart hc hcovers hmuted]

/-- Two images of items that differ in the flag only. -/
theorem exists_differWhereMuted (h : coded.map CodedItem.unmuted = coded'.map CodedItem.unmuted)
    (hfrom : List.Forall₂ (CodedFrom env) (Job.sortItems placed) coded)
    (hfrom' : List.Forall₂ (CodedFrom env) (Job.sortItems placed') coded')
    (hcheck : checkOverlaps none coded = .ok ()) (hcheck' : checkOverlaps none coded' = .ok ())
    (haddress : ∀ p ∈ placed, 0 ≤ p.place.address) (haddress' : ∀ p ∈ placed', 0 ≤ p.place.address)
    (hstart : options.start = none) (hstop : options.stop = none) :
    ∃ words₁ words₂, words env.isa options coded = .ok words₁ ∧
      words env.isa options coded' = .ok words₂ ∧
      DifferWhereMuted (fillWord env.isa options.fill) coded coded' words₁ words₂ := by
  have hend : lastAddress coded' = lastAddress coded := by
    rw [← lastAddress_unmuted, ← h, lastAddress_unmuted]
  cases hlast : lastAddress coded with
  | none =>
    rw [hlast] at hend
    refine ⟨[], [], words_of_lastAddress_eq_none hstop hlast,
      words_of_lastAddress_eq_none hstop hend, rfl, fun _ _ => rfl, fun c hc _ a hcovers => ?_,
      fun c hc _ a hcovers => ?_⟩
    · exact absurd (lastAddress_eq_none hlast c hc) hcovers.wordCount_pos.ne'
    · exact absurd (lastAddress_eq_none hend c hc) hcovers.wordCount_pos.ne'
  | some last =>
    rw [hlast] at hend
    have hapart := (checkOverlaps_eq_ok_iff_apart (CodedFrom.sorted hfrom)).mp hcheck
    have hapart' := (checkOverlaps_eq_ok_iff_apart (CodedFrom.sorted hfrom')).mp hcheck'
    obtain ⟨fill, hfill, hwords⟩ := exists_words_eq_span hfrom hcheck haddress hstart hstop hlast
    obtain ⟨fill', hfill', hwords'⟩ :=
      exists_words_eq_span hfrom' hcheck' haddress' hstart hstop hend
    cases hfill.symm.trans hfill'
    refine ⟨_, _, hwords, hwords', by rw [length_span, length_span], fun a hflags => ?_, ?_, ?_⟩
    · by_cases ha : a < last.toNat + 1
      · rw [getElem?_span ha, getElem?_span ha, Int.zero_add,
          wordAt_visible_eq h hapart hapart' fill hflags]
      · rw [List.getElem?_eq_none (by rw [length_span]; omega),
          List.getElem?_eq_none (by rw [length_span]; omega)]
    · intro c hc hmuted a hcovers
      rw [getElem?_span_of_muted hapart hlast hc hmuted hcovers, hfill]
      rfl
    · intro c hc hmuted a hcovers
      rw [getElem?_span_of_muted hapart' hend hc hmuted hcovers, hfill]
      rfl

end Image

/-- What the same steps up to flags give. -/
theorem Report.exists_of_map_unmuted {α : Type} {unmuted : α → α} {r r' : Report (Session × List α)}
    (h : r.map (Session.unmuteItems unmuted) = r'.map (Session.unmuteItems unmuted)) {s : Session}
    {xs : List α} (hr : r.result = .ok (s, xs)) :
    ∃ xs', r'.result = .ok (s, xs') ∧ xs.map unmuted = xs'.map unmuted := by
  have hresult : r.result.map (Session.unmuteItems unmuted) =
      r'.result.map (Session.unmuteItems unmuted) :=
    congrArg Report.result h
  rw [hr] at hresult
  obtain ⟨⟨s', xs'⟩, hr', hsame⟩ := map_eq_ok.mp hresult.symm
  cases (Prod.mk.inj hsame).1
  exact ⟨xs', hr', (Prod.mk.inj hsame).2.symm⟩

/-- **Muting changes what is shown only.** Let two lists of items be the same but for their flags.
Then placing them gives the same messages and the same error, or the same session (with its labels,
cursors and warnings) and the same places; and so does making the words, of them and of blocks
placed before. If no address is negative and neither a first nor a last address is set, then their
images have the same length and differ only where there is an item with different flags; there the
image of the muted one has the fill word. -/
theorem muting_changes_emission_only (s : Session) (items items' : List Item)
    (blocks : List PlacedItem) (h : items.map Item.unmuted = items'.map Item.unmuted) :
    (s.placeAll items).map (Session.unmuteItems PlacedItem.unmuted) =
        (s.placeAll items').map (Session.unmuteItems PlacedItem.unmuted) ∧
      ∀ t placed, (s.placeAll items).result = .ok (t, placed) →
        ∃ placed', (s.placeAll items').result = .ok (t, placed') ∧
          placed.map PlacedItem.unmuted = placed'.map PlacedItem.unmuted ∧
          (t.code (Job.sortItems (placed ++ blocks))).map (Session.unmuteItems CodedItem.unmuted) =
            (t.code (Job.sortItems (placed' ++ blocks))).map
              (Session.unmuteItems CodedItem.unmuted) ∧
          ∀ u coded, (t.code (Job.sortItems (placed ++ blocks))).result = .ok (u, coded) →
            ∃ coded', (t.code (Job.sortItems (placed' ++ blocks))).result = .ok (u, coded') ∧
              coded.map CodedItem.unmuted = coded'.map CodedItem.unmuted ∧
              ((∀ p ∈ placed ++ blocks, 0 ≤ p.place.address) →
                ∀ options : Options, options.start = none → options.stop = none →
                  ∃ words words', Image.words t.isa options coded = .ok words ∧
                    Image.words t.isa options coded' = .ok words' ∧
                    Image.DifferWhereMuted
                      (Image.fillWord t.isa options.fill) coded coded' words words') := by
  have hplace : (s.placeAll items).map (Session.unmuteItems PlacedItem.unmuted) =
      (s.placeAll items').map (Session.unmuteItems PlacedItem.unmuted) := by
    rw [← Session.placeAll_unmuted, h, Session.placeAll_unmuted]
  refine ⟨hplace, fun t placed hplaced => ?_⟩
  obtain ⟨placed', hplaced', hsame⟩ := Report.exists_of_map_unmuted hplace hplaced
  have hall : (placed ++ blocks).map PlacedItem.unmuted =
      (placed' ++ blocks).map PlacedItem.unmuted := by
    rw [List.map_append, List.map_append, hsame]
  have hcode : (t.code (Job.sortItems (placed ++ blocks))).map
      (Session.unmuteItems CodedItem.unmuted) =
      (t.code (Job.sortItems (placed' ++ blocks))).map (Session.unmuteItems CodedItem.unmuted) := by
    rw [← Session.code_unmuted, ← Job.sortItems_unmuted, hall, Job.sortItems_unmuted,
      Session.code_unmuted]
  refine ⟨placed', hplaced', hsame, hcode, fun u coded hcoded => ?_⟩
  obtain ⟨coded', hcoded', hsame'⟩ := Report.exists_of_map_unmuted hcode hcoded
  refine ⟨coded', hcoded', hsame', fun haddress options hstart hstop => ?_⟩
  have haddress' : ∀ p ∈ placed' ++ blocks, 0 ≤ p.place.address := by
    intro p' hp'
    have hmem : p'.unmuted ∈ (placed ++ blocks).map PlacedItem.unmuted :=
      hall ▸ List.mem_map_of_mem hp'
    obtain ⟨p, hp, hpp'⟩ := List.mem_map.mp hmem
    have hsameplace : p.place = p'.place := (congrArg PlacedItem.place hpp' :)
    exact hsameplace ▸ haddress p hp
  obtain ⟨hfrom, hcheck⟩ := Session.code_eq_ok.mp hcoded
  obtain ⟨hfrom', hcheck'⟩ := Session.code_eq_ok.mp hcoded'
  exact Image.exists_differWhereMuted hsame' (Session.codeAll_codedFrom hfrom)
    (Session.codeAll_codedFrom hfrom') hcheck hcheck' haddress haddress' hstart hstop

/-- A label between two fillings, of which one list mutes the first and the other one the second:
both give two words to each, and each image has the fill word where it mutes. -/
theorem muting_changes_emission_only_in_turn :
    let isa := Isa.bare { size := 8, segment := 8, order := .big } (by decide) (by decide)
    let s : Session :=
      { isa, options := {}, scopes := .empty, named := [],
        zones :=
          { bits := 8,
            global := { name := "GLOBAL", bits := 8, first := 0, last := 255, cursor := 0 },
            others := [] },
        symbols := default, files := [], warnings := [] }
    let item (muted : Bool) (statement : Statement) : Item :=
      { line := default, text := "", comment := "", zone := 0, scope := 0, active := [],
        compilable := true, muted, statement }
    let items (first second : Bool) : List Item :=
      [item first (.fill (.literal 2) (.literal 0xab)), item false (.label "x"),
        item second (.fill (.literal 2) (.literal 0xcd))]
    let options : Options := { fill := 0x1ff }
    ∃ t placed placed' u coded coded' words words',
      (s.placeAll (items true false)).result = .ok (t, placed) ∧
      (s.placeAll (items false true)).result = .ok (t, placed') ∧
      (t.code (Job.sortItems placed)).result = .ok (u, coded) ∧
      (t.code (Job.sortItems placed')).result = .ok (u, coded') ∧
      Image.words t.isa options coded = .ok words ∧ Image.words t.isa options coded' = .ok words' ∧
      words.length = words'.length ∧ words[1]?.map Word.value = some 0xff ∧
        words'[2]?.map Word.value = some 0xff := by
  intro isa s item items options
  have hview : ∀ first second : Bool, ((s.placeAll (items first second)).result >>= fun r =>
      (r.1.code r.2).result.map fun c =>
        (r.2.map PlacedItem.place, c.2.map fun i => (i.item.muted, i.place),
        (Image.fillWord r.1.isa options.fill).toOption.map Word.value)) =
      .ok ([⟨0, 2⟩, ⟨2, 0⟩, ⟨2, 2⟩], [(first, ⟨0, 2⟩), (false, ⟨2, 0⟩), (second, ⟨2, 2⟩)],
        some 0xff) := by
    decide +kernel
  -- The items are in order already.
  have hcoded : ∀ first second : Bool, ∃ t placed u coded,
      (s.placeAll (items first second)).result = .ok (t, placed) ∧
      (t.code (Job.sortItems (placed ++ []))).result = .ok (u, coded) ∧
      placed.map PlacedItem.place = [⟨0, 2⟩, ⟨2, 0⟩, ⟨2, 2⟩] ∧
      (coded.map fun i => (i.item.muted, i.place)) =
        [(first, ⟨0, 2⟩), (false, ⟨2, 0⟩), (second, ⟨2, 2⟩)] ∧
      (Image.fillWord t.isa options.fill).toOption.map Word.value = some 0xff := by
    intro first second
    obtain ⟨⟨t, placed⟩, hplaced, hview⟩ := bind_eq_ok.mp (hview first second)
    obtain ⟨⟨u, coded⟩, hcoded, hview⟩ := map_eq_ok.mp hview
    obtain ⟨hplaces, hview⟩ := Prod.mk.inj hview
    have hsorted : placed.Pairwise fun p q => p.place.address ≤ q.place.address := by
      rw [← List.pairwise_map (f := PlacedItem.place) (R := fun p q => p.address ≤ q.address),
        hplaces]
      decide
    have hsort : Job.sortItems (placed ++ []) = placed := by
      rw [List.append_nil]
      exact List.mergeSort_of_pairwise (hsorted.imp fun h => decide_eq_true h)
    exact ⟨t, placed, u, coded, hplaced, hsort.symm ▸ hcoded, hplaces, Prod.mk.inj hview⟩
  obtain ⟨t, placed, u, coded, hplaced, hcoded₁, hplaces, hflags, hfill⟩ := hcoded true false
  obtain ⟨t', placed', u', coded', hplaced₂, hcoded₂, -, hflags', -⟩ := hcoded false true
  obtain ⟨-, hpasses⟩ := muting_changes_emission_only s (items true false) (items false true) [] rfl
  obtain ⟨_, hplaced', -, -, hcodes⟩ := hpasses t placed hplaced
  cases hplaced₂.symm.trans hplaced'
  obtain ⟨_, hcoded', -, himages⟩ := hcodes u coded hcoded₁
  cases hcoded₂.symm.trans hcoded'
  have haddress : ∀ q ∈ placed.map PlacedItem.place, 0 ≤ q.address := by
    rw [hplaces]
    decide
  obtain ⟨words, words', hwords, hwords', hdiffer⟩ := himages
    (fun p hp => haddress p.place (List.mem_map_of_mem (List.append_nil placed ▸ hp)))
      options rfl rfl
  rw [List.append_nil] at hcoded₁ hcoded'
  refine ⟨t, placed, placed', u, coded, coded', words, words', hplaced, hplaced', hcoded₁, hcoded',
    hwords, hwords', hdiffer.length_eq, ?_, ?_⟩
  · have hmem : (true, Placement.mk 0 2) ∈ coded.map fun i => (i.item.muted, i.place) := by
      rw [hflags]; decide
    obtain ⟨c, hc, hsame⟩ := List.mem_map.mp hmem
    obtain ⟨hmuted, hplace⟩ := Prod.mk.inj hsame
    rw [hdiffer.fill_of_muted c hc hmuted 1 (by rw [hplace]; decide), hfill]
  · have hmem : (true, Placement.mk 2 2) ∈ coded'.map fun i => (i.item.muted, i.place) := by
      rw [hflags']; decide
    obtain ⟨c, hc, hsame⟩ := List.mem_map.mp hmem
    obtain ⟨hmuted, hplace⟩ := Prod.mk.inj hsame
    rw [hdiffer.fill_of_muted' c hc hmuted 2 (by rw [hplace]; decide), hfill]

end Retarget
