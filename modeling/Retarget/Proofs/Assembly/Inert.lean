import Retarget.Proofs.Assembly.Including
import Retarget.Proofs.Assembly.LocalLabels

/-!
# Lines in inactive blocks

A line in an inactive block does nothing, whatever it says, unless it is a conditional directive. If
such a line is replaced by another one, everything is loaded as before, except for items that do not
count, and so the program is assembled as before. Paths lead to the same places in both trees, with
any links (`FileTree.canonical`).

* `FileTree.withText`: a file gets another text, and all places stay;
* `Loading.loadLine_of_inactive`: what a line in an inactive block does;
* `FileTree.load_withText_rel`: two trees that differ in such a line are loaded alike;
* `inactive_line_is_inert`: they are assembled alike.
-/

namespace Retarget

/-! ## Trees that differ in a text -/

namespace FileTree

variable {t : FileTree} {p q : Place} {text : String}

/-- The tree with another text of a file. -/
def withText (t : FileTree) (p : Place) (text : String) : FileTree :=
  { t with files := t.files.map fun f => if f.1 = p then (f.1, some text) else f }

theorem file?_withText : (t.withText p text).file? q =
    if q = p then (t.file? q).map fun _ => some text else t.file? q := by
  show List.lookup q (t.files.map _) = if q =
      p then (List.lookup q t.files).map _ else List.lookup q t.files
  induction t.files with
  | nil => simp
  | cons f rest ih =>
    rw [List.map_cons, List.lookup_cons, List.lookup_cons, ih]
    by_cases hq : q = f.1
    · by_cases hp : f.1 = p <;> simp [hq, hp]
    · have hother : (q == f.1) = false := beq_eq_false_iff_ne.mpr hq
      by_cases hp : f.1 = p
      · rw [if_pos hp, hother]
      · rw [if_neg hp, hother]

@[simp] theorem isSome_file?_withText :
    ((t.withText p text).file? q).isSome = (t.file? q).isSome := by
  rw [file?_withText]
  split <;> simp

@[simp] theorem isDirectory_withText : (t.withText p text).isDirectory q = t.isDirectory q := by
  unfold isDirectory withText
  rw [List.any_map]
  congr 2
  funext f
  by_cases hf : f.1 = p <;> simp [hf]

@[simp] theorem canonical_withText : (t.withText p text).canonical = t.canonical := rfl

@[simp] theorem step_withText : (t.withText p text).step = t.step := by
  funext q piece
  unfold step
  simp

@[simp] theorem resolve_withText : (t.withText p text).resolve = t.resolve := by
  funext start path
  unfold resolve
  simp

@[simp] theorem locate?_withText : (t.withText p text).locate? = t.locate? := by
  funext start path
  unfold locate?
  simp

theorem read_withText_of_ne (h : q ≠ p) : (t.withText p text).read q = t.read q := by
  unfold read
  rw [file?_withText, if_neg h]
  simp

theorem read_withText_self {old : String} (h : t.read p = .ok old) :
    (t.withText p text).read p = .ok text := by
  unfold read at h ⊢
  rw [file?_withText, if_pos rfl]
  cases hfile : t.file? p with
  | none =>
    rw [hfile] at h
    cases h
  | some found => rfl

theorem findInclude_withText (l : Loading) (search : List Place) (name : String) :
    l.findInclude (t.withText p text) search name = l.findInclude t search name := by
  unfold Loading.findInclude
  simp

end FileTree

/-! ## Inactive lines -/

/-- Whether the first word after a number sign is that of a conditional directive. -/
def Directive.isConditional (src : List Char) : Bool :=
  match Text.trim src with
  | '#' :: body => Condition.isWord (firstWord body)
  | _ => false

/-- The items are the same, or both of them do not count. -/
def Item.SameIfCounted (i j : Item) : Prop := i = j ∨ i.compilable = false ∧ j.compilable = false

theorem filter_compilable_eq {items others : List Item}
    (h : List.Forall₂ Item.SameIfCounted items others) :
    items.filter Item.compilable = others.filter Item.compilable := by
  induction h with
  | nil => rfl
  | cons hij _ ih =>
    rcases hij with rfl | ⟨hi, hj⟩
    · rw [List.filter_cons, List.filter_cons, ih]
    · rw [List.filter_cons_of_neg (by simp [hi]), List.filter_cons_of_neg (by simp [hj]), ih]

/-- The next line is inactive. -/
def Loading.IsInactive (l : Loading) : Prop := l.conditions.isActive l.session.symbols = .ok false

/-- An inactive line makes an item that does not count, and that is all. -/
theorem Loading.loadLine_of_inactive {l : Loading} {src : List Char} (h : l.IsInactive)
    (hsrc : Directive.isConditional src = false) (number : Nat) :
    ∃ item : Item, item.compilable = false ∧ ∀ tree search load,
      l.loadLine tree search load number src = pure (l, [item]) := by
  unfold Directive.isConditional at hsrc
  split at hsrc
  · rename_i body hsharp
    refine ⟨l.inertItem (l.lineAt number) (String.ofList src) "" false, rfl,
      fun tree search load => ?_⟩
    have hword : (false || Condition.isWord (String.ofList ((Text.words body).head?.getD []))) =
        false := hsrc
    unfold loadLine
    rw [h, hsharp, Report.ofExcept_ok_bind]
    show l.loadDirective tree search load (l.lineAt number) false src body = _
    unfold loadDirective
    dsimp only
    rw [hword, if_neg Bool.false_ne_true]
    rfl
  · rename_i hplain
    refine ⟨l.inertItem (l.lineAt number) (String.ofList (Text.trim (Text.splitComment src).1))
      (String.ofList (Text.splitComment src).2) l.conditions.isMuted, rfl,
      fun tree search load => ?_⟩
    unfold loadLine
    rw [h, Report.ofExcept_ok_bind]
    split
    · rename_i body hsharp
      exact absurd hsharp (hplain body)
    · rfl

/-! ## Loading with another line -/

namespace FileTree

variable {t : FileTree} {search : List Place} {p : Place} {text text' : String}
  {before after : List (List Char)} {x y : List Char}

/-- Lines at other places are the same. -/
theorem getElem?_eq_or (hlines : Text.lines text = before ++ x :: after)
    (hlines' : Text.lines text' = before ++ y :: after) {k : Nat} {src src' : List Char}
    (hsrc : (Text.lines text)[k]? = some src) (hsrc' : (Text.lines text')[k]? = some src') :
    src = src' ∨ k = before.length ∧ src = x ∧ src' = y := by
  rw [hlines] at hsrc
  rw [hlines'] at hsrc'
  rcases Nat.lt_trichotomy k before.length with hlt | rfl | hlt
  · rw [List.getElem?_append_left hlt] at hsrc hsrc'
    exact .inl (Option.some.inj (hsrc.symm.trans hsrc'))
  · simp only [List.getElem?_append_right (Nat.le_refl _), Nat.sub_self, List.getElem?_cons_zero,
      Option.some.injEq] at hsrc hsrc'
    exact .inr ⟨rfl, hsrc.symm, hsrc'.symm⟩
  · obtain ⟨n, rfl⟩ := Nat.exists_eq_add_of_lt hlt
    have hnumber : before.length + n + 1 - before.length = n + 1 := by omega
    rw [List.getElem?_append_right (by omega), hnumber, List.getElem?_cons_succ] at hsrc hsrc'
    exact .inl (Option.some.inj (hsrc.symm.trans hsrc'))

/-- **Two trees that differ in an inactive line are loaded alike.** The induction is on the loadings
that a loading calls for; the states of a file between its lines are the same in both trees. -/
theorem load_withText_rel (hread : t.read p = .ok text)
    (hlines : Text.lines text = before ++ x :: after)
    (hlines' : Text.lines text' = before ++ y :: after) (hx : Directive.isConditional x = false)
    (hy : Directive.isConditional y = false) {a : Session × Place} (hacc : Acc (t.Calls search) a)
    (hnew : a.1.files.find? a.2.render = none)
    (hinactive : ∀ path s' l, t.Visits search a.1 a.2 path s' p →
      (t.source search s' p text).Reads before.length l → l.IsInactive)
      (requester : Option SourceLine) :
    Report.Rel (Loaded.Alike Item.SameIfCounted) (t.load search a.1 a.2 requester)
      ((t.withText p text').load search a.1 a.2 requester) := by
  induction hacc generalizing requester with
  | intro a _ ih =>
    obtain ⟨s, place⟩ := a
    dsimp only at hnew hinactive
    have hload {old : String} (hold : t.read place =
        .ok old) {k : Nat} {l : Loading} {src : List Char}
        (hl : (t.source search s place old).Reads k l) (hsrc : (Text.lines old)[k]? = some src) :
        Report.Rel (Loading.SameState Item.SameIfCounted)
          (l.loadLine t search (t.source search s place old).load (k + 1) src)
          (l.loadLine (t.withText p text') search
            ((t.withText p text').source search s place old).load
            (k + 1) src) := by
      refine Loading.loadLine_rel (fun i => .inl rfl)
        (fun name => (findInclude_withText l search name).symm)
        fun w hasks => ?_
      have hrequests : t.Requests search s place k w := ⟨old, l, src, hold, hl, hsrc, hasks⟩
      exact ih (w.session, w.place) ⟨k, w, hrequests, rfl⟩ hrequests.is_new
        (fun path s' l hvisits hl => hinactive (k :: path) s' l (.inside hrequests hvisits) hl)
          (some w.line)
    by_cases hplace : place = p
    · subst hplace
      rw [load_eq_report hnew hread, load_eq_report hnew (read_withText_self hread)]
      have hlength : (Text.lines text').length = (Text.lines text).length := by
        simp [hlines, hlines']
      refine SourceText.report_rel (f := t.source search s place text) hlength
        fun k l src src' hl hsrc hsrc' => ?_
      rcases getElem?_eq_or hlines hlines' hsrc hsrc' with rfl | ⟨rfl, rfl, rfl⟩
      · exact hload hread hl hsrc
      · have hskipped := hinactive [] s l (.root s place) hl
        obtain ⟨item, hitem, hline⟩ := Loading.loadLine_of_inactive hskipped hx (before.length + 1)
        obtain ⟨item', hitem', hline'⟩ :=
          Loading.loadLine_of_inactive hskipped hy (before.length + 1)
        rw [hline, hline']
        exact .pure ⟨rfl, .cons (.inr ⟨hitem, hitem'⟩) .nil⟩
    · rw [load_eq hnew, load_eq hnew, readFor, readFor, read_withText_of_ne hplace]
      refine .bind_self fun old hold => ?_
      have hold := readFor_eq_ok.mp hold
      refine SourceText.report_rel (f := t.source search s place old) rfl
        fun k l src src' hl hsrc hsrc' => ?_
      cases hsrc.symm.trans hsrc'
      exact hload hold hl hsrc

end FileTree

/-! ## Assembling with another line -/

namespace Job

/-- A run comes to the line after the first `k` ones of a file. -/
def Reaches (j : Job) (isa : Isa) (p : Place) (text : String) (k : Nat) (l : Loading) : Prop :=
  ∃ root s₀ s blocks path s', j.tree.resolve j.directory j.source = .ok root ∧
    Session.start isa j.options = .ok s₀ ∧ s₀.placeBlocks isa.blocks = .ok (s, blocks) ∧
    j.tree.Visits (j.searchDirectories root) s root path s' p ∧ j.tree.read p = .ok text ∧
    (j.tree.source (j.searchDirectories root) s' p text).Reads k l

/-- The job with another text of a file. -/
def withText (j : Job) (p : Place) (text : String) : Job :=
  { j with tree := j.tree.withText p text }

theorem searchDirectories_withText (j : Job) (p root : Place) (text : String) :
    (j.withText p text).searchDirectories root = j.searchDirectories root := by
  unfold searchDirectories withText
  simp

variable {j : Job} {isa : Isa} {root p : Place} {text : String} {s₀ s : Session}
  {blocks : List PlacedItem}

/-- Items that do not count matter neither to the image nor to the labels. -/
theorem assemble_withText (hresolve : j.tree.resolve j.directory j.source = .ok root)
    (hstart : Session.start isa j.options = .ok s₀)
    (hblocks : s₀.placeBlocks isa.blocks = .ok (s, blocks))
    (hload : Report.Rel (Loaded.Alike Item.SameIfCounted)
      (j.tree.load (j.searchDirectories root) s root none)
      ((j.tree.withText p text).load (j.searchDirectories root) s root none)) :
    (j.withText p text).assemble isa = j.assemble isa ∧
      (j.withText p text).firstPass isa = j.firstPass isa := by
  have hroot : Error.lift ((j.tree.resolve j.directory j.source).mapError
      (ProgramError.cannotOpen j.source)) = .ok root := by
    rw [hresolve]
    rfl
  have hroot' : Error.lift (((j.withText p text).tree.resolve (j.withText p text).directory
      (j.withText p text).source).mapError (ProgramError.cannotOpen (j.withText p text).source)) =
        .ok root := by
    rw [withText, FileTree.resolve_withText]
    exact hroot
  have hstart' : Session.start isa (j.withText p text).options = .ok s₀ := hstart
  constructor
  · unfold assemble
    rw [hroot, hroot', hstart, hstart']
    simp only [Report.ofExcept_ok_bind, hblocks, searchDirectories_withText]
    refine bind_congr fun _ => (hload.bind_eq ?_).symm
    rintro a b ⟨hsession, -, hitems⟩
    rw [hsession, hitems.length_eq, filter_compilable_eq hitems]
    rfl
  · unfold firstPass
    rw [hroot, hroot', hstart, hstart']
    simp only [ok_bind, hblocks, searchDirectories_withText]
    refine (hload.result_bind_eq ?_).symm
    rintro a b ⟨hsession, -, hitems⟩
    rw [hsession, filter_compilable_eq hitems]

end Job

/-- **Text in inactive blocks is inert.** Let a run come to an inactive line that is no conditional
directive, and let another such line stand in its place. Then the run prints the same and ends
alike: with the same error, or with the same image, start address and warnings, and with the same
labels after the first pass. -/
theorem inactive_line_is_inert (j : Job) (isa : Isa) (p : Place) (text text' : String)
    (before after : List (List Char)) (x y : List Char) (l : Loading)
    (hlines : Text.lines text = before ++ x :: after)
    (hlines' : Text.lines text' = before ++ y :: after) (hx : Directive.isConditional x = false)
    (hy : Directive.isConditional y = false) (hreaches : j.Reaches isa p text before.length l)
    (hinactive : l.conditions.isActive l.session.symbols = .ok false) :
    (j.withText p text').assemble isa = j.assemble isa ∧
      (j.withText p text').firstPass isa = j.firstPass isa := by
  obtain ⟨root, s₀, s, blocks, path, s', hresolve, hstart, hblocks, hvisits, hread, hl⟩ := hreaches
  have hnew : s.files.find? root.render = none := by
    have hs := Session.startsPlain_placeBlocks
      (Session.startsPlain_start s₀ hstart) isa.blocks _ hblocks
    rw [hs.files_eq]
    rfl
  refine Job.assemble_withText hresolve hstart hblocks ?_
  refine FileTree.load_withText_rel hread hlines hlines' hx hy (FileTree.acc_calls hnew) hnew
    (fun path' s'' l' hvisits' hl' => ?_) none
  -- A file is visited once, so this is the line that the run comes to.
  cases hvisits.path_eq hvisits'
  obtain ⟨rfl, -⟩ := hvisits.eq hvisits'
  cases hl.eq hl'
  exact hinactive

/-- An inactive line of an included file asks for an error, or else for a file that is not there.
Neither keeps the rest from being assembled. -/
theorem inactive_line_is_inert_library :
    let isa := Isa.bare { size := 8, segment := 8, order := .big } (by decide) (by decide)
    let library (line : String) := ["#ifdef DEBUG", line, "#endif", "x: .byte 2"]
    let j := Job.ofTwoFiles ["#include \"lib.asm\"", ".byte x"] (library "#error \"skipped\"")
    let j' := j.withText ["lib.asm"] ("\n".intercalate (library "#include \"missing.asm\""))
    (j.firstPass isa).map (fun r => r.1.scopes.lookup ScopeTree.globalId "x") = .ok (some 0) ∧
      j'.assemble isa = j.assemble isa ∧ j'.firstPass isa = j.firstPass isa := by
  intro isa library j j'
  have hview : (do
      let s₀ ← Session.start isa j.options
      let start ← s₀.placeBlocks isa.blocks
      let main := Loading.start start.1 ["main.asm"]
      let r ← (j.tree.source (j.searchDirectories ["main.asm"]) main.session ["lib.asm"]
        ("\n".intercalate (library "#error \"skipped\""))).readUpTo 1
      return (main.conditions.isActive main.session.symbols,
        main.findInclude j.tree (j.searchDirectories ["main.asm"]) "lib.asm",
        main.session.files.find? "/lib.asm", r.1.conditions.isActive r.1.session.symbols)) =
      .ok (.ok true, .ok ["lib.asm"], none, .ok false) := by decide +kernel
  obtain ⟨s₀, hstart, hview⟩ := bind_eq_ok.mp hview
  obtain ⟨⟨s, blocks⟩, hblocks, hview⟩ := bind_eq_ok.mp hview
  obtain ⟨⟨l, items⟩, hl, hview⟩ := bind_eq_ok.mp hview
  obtain ⟨hactive, hview⟩ := Prod.mk.inj (pure_eq_ok.mp hview)
  obtain ⟨hfind, hview⟩ := Prod.mk.inj hview
  obtain ⟨hnew, hinactive⟩ := Prod.mk.inj hview
  let main := Loading.start s ["main.asm"]
  have hrequests : j.tree.Requests (j.searchDirectories ["main.asm"]) s ["main.asm"] 0
      { session := main.session, place := ["lib.asm"], line := main.lineAt 1 } :=
    ⟨_, main, "#include \"lib.asm\"".toList, rfl, SourceText.reads_zero _, by decide +kernel,
      "lib.asm", main, ⟨"include \"lib.asm\"".toList, true, by decide +kernel, hactive, rfl, rfl⟩,
      rfl, hfind, hnew, rfl, rfl⟩
  have hreaches : j.Reaches isa ["lib.asm"] ("\n".intercalate (library "#error \"skipped\"")) 1 l :=
    ⟨["main.asm"], s₀, s, blocks, [0], main.session, by decide +kernel, hstart, hblocks,
      .inside hrequests (.root _ _), by decide +kernel, items, hl⟩
  exact ⟨by decide +kernel, inactive_line_is_inert j isa ["lib.asm"] _ _ ["#ifdef DEBUG".toList]
    ["#endif".toList,
      "x: .byte 2".toList] "#error \"skipped\"".toList "#include \"missing.asm\"".toList l
    (by decide +kernel) (by decide +kernel) (by decide +kernel)
      (by decide +kernel) hreaches hinactive⟩

end Retarget
