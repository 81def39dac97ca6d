import Retarget.Proofs.Assembly.FileScopes
import Retarget.Proofs.Assembly.Numbering
import Retarget.Proofs.Statement.Labelled

/-!
# A label on the line of its statement

A label may stand on the line of its statement or on the line above it. Both lines are read before
anything on them is tracked, so the statement is read in the scope before the label, and tracked in
the scope after it. Only the value of a constant depends on the scope in which it is read. A label
that is not local opens a block, where the local labels of the block before cannot be seen; so the
two ways of writing differ where a constant mentions one of them, and nowhere else
(`label_line_as_two_lines`).

* `Loading.enterLabel`: the state after a label;
* `Loading.LabelBefore`, `Loading.HidesLocal`: a label before a statement, and the exception;
* `Loading.LabelBefore.result_loadLine_both`, `Loading.LabelBefore.result_loadLines`: the two ways
  of writing.
-/

namespace Retarget

namespace Reader

variable {n : Nat} {r r' : Reader} {cs name value : List Char}

theorem readStatement_constant (hlabel : labelName? cs = none)
    (hparts : constantParts? cs = some (name, value)) :
    r.readStatement cs = do
      r.checkLabel name
      let e ← r.expression value
      let v ← Error.liftAt r.line (e.eval (r.env.labels r.position.scope r.position.active))
      return (cs, .constant (String.ofList name) v, cs.length) := by
  unfold readStatement
  rw [hlabel, hparts]

/-- The labels that the value of a constant mentions; none if the text is something else. -/
def constantLabels (cs : List Char) : List String :=
  match constantParts? cs with
  | some (_, value) =>
    ((Expression.parse (String.ofList value)).toOption.map fun e => e.term.labels).getD []
  | none => []

theorem mem_constantLabels {x : String} : x ∈ constantLabels cs ↔ ∃ name value e,
    constantParts? cs = some (name, value) ∧ Expression.parse (String.ofList value) = .ok e ∧
      x ∈ e.term.labels := by
  unfold constantLabels
  cases hparts : constantParts? cs with
  | none => simp
  | some parts =>
    obtain ⟨name, value⟩ := parts
    cases hparse : Expression.parse (String.ofList value) with
    | error e => simp [Except.toOption, hparse]
    | ok e => simp [Except.toOption, hparse]

/-- Whether a text holds one statement does not depend on the labels. -/
theorem ReadsOne.of_alike (h : r.ReadsOne cs) (halike : Alike n r r') : r'.ReadsOne cs where
  ne_nil := h.ne_nil
  no_label := h.no_label
  alone text statement length hread := by
    cases hparts : constantParts? cs with
    | some parts =>
      rw [readStatement_constant h.no_label hparts] at hread
      obtain ⟨_, -, hread⟩ := bind_eq_ok.mp hread
      obtain ⟨_, -, hread⟩ := bind_eq_ok.mp hread
      obtain ⟨_, -, hread⟩ := bind_eq_ok.mp hread
      cases pure_eq_ok.mp hread
      rw [List.drop_length]
      rfl
    | none =>
      have hagree : r.AgreeOn r' cs := by
        intro name value e hsome
        rw [hparts] at hsome
        cases hsome
      rw [readStatement_alike halike hagree] at hread
      obtain ⟨read, hread', hsame⟩ := renumber_eq_ok.mp hread
      cases hsame
      exact h.alone read.1 read.2.1 read.2.2 hread'

end Reader

namespace Loading

variable {l : Loading} {tree : FileTree} {search : List Place} {load : Include} {number : Nat}
  {src : List Char}

/-! ## Labels -/

/-- The state after a label. -/
def enterLabel (l : Loading) (name : String) : Loading :=
  if Tier.ofLabel name = .block then l else l.openBlock name

theorem track_label {i : Item} {name : String} (h : i.statement = .label name) :
    l.track i = pure (l.enterLabel name,
      { i with scope := (l.enterLabel name).position.scope }) := by
  unfold track enterLabel
  rw [h]
  dsimp only
  split <;> rfl

/-- An item gets its scope when it is tracked. -/
theorem track_scope (i : Item) (scope : ScopeId) : l.track { i with scope } = l.track i := rfl

/-- The labels that can be seen after a label: all but the local ones, if it is not local itself. -/
theorem labels_enterLabel (h : l.InFile) (hnamed : l.session.named.NoLocals) (name x : String) :
    (l.enterLabel name).session.env.labels (l.enterLabel name).position.scope
      (l.enterLabel name).position.active x =
      if Tier.ofLabel name ≠ .block ∧ Tier.ofLabel x = .block then none
      else l.session.env.labels l.position.scope l.position.active x := by
  unfold enterLabel
  split
  · rename_i hname
    rw [if_neg fun hboth => hboth.1 hname]
  · rename_i hname
    have hscopes := ScopeTree.lookup_openBlock h.wellFormed h.file_eq h.scope_eq name x
    by_cases hx : Tier.ofLabel x = .block
    · rw [if_pos ⟨hname, hx⟩,
        Session.labels_local (s := (l.openBlock name).session) hnamed _ _ ⟨x, hx⟩]
      rw [if_pos hx] at hscopes
      exact hscopes
    · rw [if_neg fun hboth => hx hboth.2]
      rw [if_neg hx] at hscopes
      exact congrArg (Option.or (l.session.named.lookup l.position.active x)) hscopes

/-! ## Lines -/

/-- The reader of an active line. -/
def lineReader (l : Loading) (number : Nat) : Reader := l.atStatement.reader (l.lineAt number)

theorem result_loadLine_active (hsharp : ∀ body, Text.trim src ≠ '#' :: body)
    (hactive : l.conditions.isActive l.session.symbols = .ok true) :
    (l.loadLine tree search load number src).result =
      (l.lineReader number).readLine src >>= fun items =>
        (l.atStatement.trackAll items).result := by
  rw [loadLine_of_not_sharp hsharp, hactive, Report.ofExcept_ok_bind, if_pos rfl,
    Report.result_bind, Report.result_ofExcept]
  rfl

theorem result_loadLine_inactive (hsharp : ∀ body, Text.trim src ≠ '#' :: body)
    (hactive : l.conditions.isActive l.session.symbols = .ok false) (number : Nat) :
    ∃ i : Item, i.compilable = false ∧ (l.loadLine tree search load number src).result =
      .ok (l, [i]) := by
  rw [loadLine_of_not_sharp hsharp, hactive, Report.ofExcept_ok_bind, if_neg Bool.false_ne_true]
  exact ⟨l.inertItem (l.lineAt number) _ _ _, rfl, rfl⟩

theorem result_loadLine_stuck (hsharp : ∀ body, Text.trim src ≠ '#' :: body) {e : Error}
    (hactive : l.conditions.isActive l.session.symbols = .error e) :
    (l.loadLine tree search load number src).result = .error e := by
  rw [loadLine_of_not_sharp hsharp, hactive, Report.ofExcept_error_bind]
  rfl

theorem result_trackAll_one (i : Item) :
    (l.trackAll [i]).result = (l.track i).result >>= fun a => .ok (a.1, [a.2]) := by
  rw [trackAll, Report.result_bind]
  rfl

theorem result_trackAll_two (i j : Item) :
    (l.trackAll [i, j]).result = (l.track i).result >>= fun a => (a.1.track j).result >>= fun b =>
      .ok (b.1, [a.2, b.2]) := by
  rw [trackAll, Report.result_bind]
  refine bind_congr fun a => ?_
  show (a.1.trackAll [j] >>= fun b => pure (b.1, a.2 :: b.2)).result = _
  rw [Report.result_bind, result_trackAll_one]
  cases (a.1.track j).result <;> rfl

/-! ## A label before a statement -/

/-- A label before a statement: `label` stands for `name`, which a label may be called, and `rest`
holds one statement, which is no label, and no comment. -/
structure LabelBefore (l : Loading) (number : Nat) (label name rest : List Char) : Prop where
  spelled : isLabel label = true
  resolves : l.session.symbols.resolve (String.ofList label) = .ok (String.ofList name)
  mayName : (l.lineReader number).MayName name
  no_comment : Text.splitComment rest = (rest, [])
  no_directive : ∀ body, Text.trim rest ≠ '#' :: body
  single : ∀ code, l.session.symbols.resolve (String.ofList rest) = .ok code →
    (l.lineReader number).ReadsOne (Text.trim code.toList)

instance {label name rest : List Char} : Decidable (l.LabelBefore number label name rest) :=
  decidable_of_iff (isLabel label = true ∧
      l.session.symbols.resolve (String.ofList label) = .ok (String.ofList name) ∧
      (l.lineReader number).MayName name ∧ Text.splitComment rest = (rest, []) ∧
      (Text.trim rest).head? ≠ some '#' ∧
      ∀ code ∈ (l.session.symbols.resolve (String.ofList rest)).toOption,
        (l.lineReader number).ReadsOne (Text.trim code.toList))
    ⟨fun ⟨hspelled, hresolves, hname, hcomment, hsharp, hsingle⟩ =>
      ⟨hspelled, hresolves, hname, hcomment, fun body hbody => hsharp (by rw [hbody]; rfl),
        fun code hcode => hsingle code (toOption_eq_some.mpr hcode)⟩,
    fun h => ⟨h.spelled, h.resolves, h.mayName, h.no_comment, fun hsharp => by
      obtain ⟨body, hbody⟩ := List.head?_eq_some_iff.mp hsharp
      exact h.no_directive body hbody, fun code hcode => h.single code (toOption_eq_some.mp hcode)⟩⟩

/-- The label ends a block of local labels, and the statement is a constant whose value mentions one
of them. -/
def HidesLocal (l : Loading) (name rest : List Char) : Prop :=
  Tier.ofLabel (String.ofList name) ≠ .block ∧ ∃ code,
    l.session.symbols.resolve (String.ofList rest) = .ok code ∧
    ∃ x ∈ Reader.constantLabels (Text.trim code.toList), Tier.ofLabel x = .block ∧
      (l.session.env.labels l.position.scope l.position.active x).isSome = true

instance {name rest : List Char} : Decidable (l.HidesLocal name rest) :=
  decidable_of_iff (Tier.ofLabel (String.ofList name) ≠ .block ∧
      ∃ code ∈ (l.session.symbols.resolve (String.ofList rest)).toOption.toList,
        ∃ x ∈ Reader.constantLabels (Text.trim code.toList), Tier.ofLabel x = .block ∧
          (l.session.env.labels l.position.scope l.position.active x).isSome = true)
    (by simp only [HidesLocal, Option.mem_toList, toOption_eq_some])

namespace LabelBefore

variable {label name rest : List Char}

/-- The state after the label. -/
def after (l : Loading) (name : List Char) : Loading :=
  l.atStatement.enterLabel (String.ofList name)

/-- The item of the label, as it is tracked. -/
def item (l : Loading) (number : Nat) (name : List Char) : Item :=
  { (l.lineReader number).labelItem name with scope := (after l name).position.scope }

theorem conditions_after (l : Loading) (name : List Char) :
    (after l name).conditions = l.conditions := by
  unfold after enterLabel
  split <;> rfl

theorem symbols_after (l : Loading) (name : List Char) :
    (after l name).session.symbols = l.session.symbols := by
  unfold after enterLabel
  split <;> rfl

/-- A label does not change which lines are active. -/
theorem isActive_after (l : Loading) (name : List Char) :
    (after l name).conditions.isActive (after l name).session.symbols =
      l.conditions.isActive l.session.symbols := by
  rw [conditions_after, symbols_after]

theorem atStatement_after (l : Loading) (name : List Char) :
    (after l name).atStatement = after l name := by
  unfold after enterLabel
  split <;> rfl

theorem alike_after (k : Nat) :
    Reader.Alike k (l.lineReader number) ((after l name).lineReader k) := by
  unfold after enterLabel
  split
  · exact ⟨rfl, rfl, rfl⟩
  · exact ⟨rfl, rfl, rfl⟩

/-- The item of a statement below the label is that on the line of the label, up to its number and
scope. -/
theorem item_after (k : Nat) (text : String) (s : Statement) :
    ((after l name).lineReader k).item "" text (s.atNumber k) =
      { ((l.lineReader number).item "" text s).atNumber k
        with scope := (after l name).position.scope } := by
  unfold after enterLabel
  split <;> rfl

/-- The line with the label alone. -/
theorem result_loadLine_label (h : l.LabelBefore number label name rest)
    (hactive : l.conditions.isActive l.session.symbols = .ok true) (k : Nat) :
    (l.loadLine tree search load k (label ++ [':'])).result =
      .ok (after l name, [item l k name]) := by
  rw [result_loadLine_active (Reader.trim_label_ne_sharp h.spelled []) hactive,
    Reader.readLine_label_only (r := l.lineReader k) h.spelled h.mayName h.resolves, ok_bind,
    result_trackAll_one, track_label rfl]
  rfl

/-- The line with the label and the statement. -/
theorem result_loadLine_both (h : l.LabelBefore number label name rest)
    (hactive : l.conditions.isActive l.session.symbols = .ok true) {code : String}
    (hcode : l.session.symbols.resolve (String.ofList rest) = .ok code) :
    (l.loadLine tree search load number (label ++ ':' :: rest)).result =
      (l.lineReader number).readStatement (Text.trim code.toList) >>= fun read =>
        ((after l name).track
          ((l.lineReader number).item "" (String.ofList read.1) read.2.1)).result >>= fun b =>
          .ok (b.1, [item l number name, b.2]) := by
  rw [result_loadLine_active (Reader.trim_label_ne_sharp h.spelled rest) hactive,
    Reader.readLine_label_of_readsOne h.spelled h.mayName h.resolves h.no_comment hcode
      (h.single code hcode)]
  cases (l.lineReader number).readStatement (Text.trim code.toList) with
  | error e => rfl
  | ok read =>
    rw [ok_bind, ok_bind]
    show (l.atStatement.trackAll [_, _]).result = _
    rw [result_trackAll_two, track_label rfl]
    rfl

/-- The line with the statement alone, below the label. -/
theorem result_loadLine_statement (h : l.LabelBefore number label name rest)
    (hactive : l.conditions.isActive l.session.symbols = .ok true) {code : String}
    (hcode : l.session.symbols.resolve (String.ofList rest) = .ok code) (k : Nat) :
    ((after l name).loadLine tree search load k rest).result =
      ((after l name).lineReader k).readStatement (Text.trim code.toList) >>= fun read =>
        ((after l name).track
          (((after l name).lineReader k).item "" (String.ofList read.1) read.2.1)).result >>=
          fun b => .ok (b.1, [b.2]) := by
  have hcode' : ((after l name).lineReader k).symbols.resolve (String.ofList rest) = .ok code := by
    rw [← hcode, ← symbols_after l name]
    rfl
  rw [result_loadLine_active h.no_directive ((isActive_after l name).trans hactive),
    Reader.readLine_of_readsOne h.no_comment hcode'
      ((h.single code hcode).of_alike (alike_after k)), atStatement_after]
  cases ((after l name).lineReader k).readStatement (Text.trim code.toList) with
  | error e => rfl
  | ok read => exact result_trackAll_one _

/-- Where the label hides nothing, the statement is read alike on both lines. -/
theorem readStatement_after (hl : l.InFile) (hnamed : l.session.named.NoLocals)
    (h : ¬ l.HidesLocal name rest) {code : String}
    (hcode : l.session.symbols.resolve (String.ofList rest) = .ok code) (k : Nat) :
    ((after l name).lineReader k).readStatement (Text.trim code.toList) =
      renumber k (Reader.readAtNumber k)
        ((l.lineReader number).readStatement (Text.trim code.toList)) := by
  refine Reader.readStatement_alike (alike_after k) fun constant value e hparts hparse => ?_
  refine Term.eval_congr fun x hx => ?_
  refine (labels_enterLabel (l := l.atStatement) ⟨hl.1, hl.2, hl.3⟩ hnamed
    (String.ofList name) x).trans ?_
  split
  · rename_i hboth
    have hmentions : x ∈ Reader.constantLabels (Text.trim code.toList) :=
      Reader.mem_constantLabels.mpr ⟨constant, value, e, hparts, hparse, hx⟩
    refine Eq.symm (Option.eq_none_iff_forall_ne_some.mpr fun v hv => h ?_)
    exact ⟨hboth.1, code, hcode, x, hmentions, hboth.2, Option.isSome_iff_exists.mpr ⟨v, hv⟩⟩
  · rfl

/-- Where the label hides a local label, a constant that can be read before it cannot be read below
it. -/
theorem readStatement_after_of_hides (hl : l.InFile) (hnamed : l.session.named.NoLocals)
    {code : String} (hone : (l.lineReader number).ReadsOne (Text.trim code.toList))
    (h : l.HidesLocal name rest) (hcode : l.session.symbols.resolve (String.ofList rest) = .ok code)
    {read : List Char × Statement × Nat}
    (hread : (l.lineReader number).readStatement (Text.trim code.toList) = .ok read) (k : Nat) :
    ∃ e, ((after l name).lineReader k).readStatement (Text.trim code.toList) = .error e ∧
      e.kind = .label := by
  obtain ⟨hname, code', hcode', x, hmentions, htier, -⟩ := h
  cases hcode.symm.trans hcode'
  obtain ⟨constant, value, e, hparts, hparse, hx⟩ := Reader.mem_constantLabels.mp hmentions
  rw [Reader.readStatement_constant hone.no_label hparts] at hread ⊢
  obtain ⟨_, hcheck, hread⟩ := bind_eq_ok.mp hread
  obtain ⟨e', he', hread⟩ := bind_eq_ok.mp hread
  obtain ⟨w, hw, -⟩ := bind_eq_ok.mp hread
  cases (Error.liftAt_eq_ok.mp he').symm.trans hparse
  have halike : Reader.Alike k (l.lineReader number) ((after l name).lineReader k) := alike_after k
  have hlabels (y : String) :=
    labels_enterLabel (l := l.atStatement) ⟨hl.1, hl.2, hl.3⟩ hnamed (String.ofList name) y
  have hhidden : ∃ y, e.term.eval (((after l name).lineReader k).env.labels
      ((after l name).lineReader k).position.scope ((after l name).lineReader k).position.active) =
        .error (.unknownLabel y) := by
    refine Term.eval_of_hidden (Error.liftAt_eq_ok.mp hw) (fun y _ => ?_) ⟨x, hx, ?_⟩
    · by_cases hy : Tier.ofLabel y = .block
      · exact .inr ((hlabels y).trans (if_pos ⟨hname, hy⟩))
      · exact .inl ((hlabels y).trans (if_neg fun hboth => hy hboth.2))
    · exact (hlabels x).trans (if_pos ⟨hname, htier⟩)
  obtain ⟨y, hy⟩ := hhidden
  rw [halike.checkLabel_eq, hcheck, halike.expression_eq, Reader.expression, hparse]
  refine ⟨Error.ofCauseAt ((after l name).lineReader k).line (ExprError.unknownLabel y), ?_, rfl⟩
  show (Error.liftAt _ (e.term.eval _) >>= _) = _
  rw [hy]
  rfl

end LabelBefore

/-- The same state and the same items that count, up to line numbers. -/
def SameLoaded (a b : Loading × List Item) : Prop :=
  a.1.unnumbered = b.1.unnumbered ∧
    (a.2.filter Item.compilable).map (Item.atNumber 0) =
      (b.2.filter Item.compilable).map (Item.atNumber 0)

theorem SameLoaded.of_items_eq {a b : Loading × List Item}
    (hstate : a.1.unnumbered = b.1.unnumbered)
    (hitems : a.2.map (Item.atNumber 0) = b.2.map (Item.atNumber 0)) : SameLoaded a b := by
  have hfilter (items : List Item) : (items.filter Item.compilable).map (Item.atNumber 0) =
      (items.map (Item.atNumber 0)).filter Item.compilable := by
    rw [List.filter_map]
    rfl
  refine ⟨hstate, ?_⟩
  rw [hfilter, hfilter, hitems]

theorem result_loadLines_one (src : List Char) :
    (l.loadLines tree search load number [src]).result =
      (l.loadLine tree search load number src).result >>= fun r => .ok (r.1, r.2 ++ []) := by
  rw [loadLines, Report.result_bind]
  rfl

theorem result_loadLines_two (src src' : List Char) :
    (l.loadLines tree search load number [src, src']).result =
      (l.loadLine tree search load number src).result >>= fun r =>
        (r.1.loadLine tree search load (number + 1) src').result >>= fun r' =>
          .ok (r'.1, r.2 ++ (r'.2 ++ [])) := by
  rw [loadLines, Report.result_bind]
  refine bind_congr fun r => ?_
  show (r.1.loadLines tree search load (number + 1) [src'] >>= fun r' =>
      pure (r'.1, r.2 ++ r'.2)).result = _
  rw [Report.result_bind, result_loadLines_one]
  cases (r.1.loadLine tree search load (number + 1) src').result <;> rfl

namespace LabelBefore

variable {label name rest : List Char}

/-- The two lines, if their symbols can be replaced. -/
theorem result_loadLines (h : l.LabelBefore number label name rest)
    (hactive : l.conditions.isActive l.session.symbols = .ok true) (k : Nat) :
    (l.loadLines tree search load k [label ++ [':'], rest]).result =
      ((after l name).loadLine tree search load (k + 1) rest).result >>= fun r =>
        .ok (r.1, item l k name :: (r.2 ++ [])) := by
  rw [result_loadLines_two, h.result_loadLine_label hactive, ok_bind]
  rfl

/-- Active lines, where the symbols of the statement can be replaced. -/
theorem sameOutcome_of_code (hl : l.InFile) (hnamed : l.session.named.NoLocals)
    (h : l.LabelBefore number label name rest) (hhides : ¬ l.HidesLocal name rest)
    (hactive : l.conditions.isActive l.session.symbols = .ok true) {code : String}
    (hcode : l.session.symbols.resolve (String.ofList rest) = .ok code) (k : Nat) :
    SameOutcome SameLoaded (l.loadLines tree search load number [label ++ ':' :: rest]).result
      (l.loadLines tree search load k [label ++ [':'], rest]).result := by
  rw [result_loadLines_one, h.result_loadLine_both hactive hcode, h.result_loadLines hactive,
    h.result_loadLine_statement hactive hcode, readStatement_after hl hnamed hhides hcode]
  simp only [bind_assoc]
  refine (SameOutcome.renumber (k + 1) (Reader.readAtNumber (k + 1)) _).bind ?_
  rintro read _ rfl
  rw [Reader.readAtNumber, item_after, track_scope]
  refine (track_atNumber (after l name) _ (k + 1)).bind fun a b hab => .ok (.of_items_eq hab.1 ?_)
  have hlabel : (item l number name).atNumber 0 = (item l k name).atNumber 0 := rfl
  simp only [List.append_nil, List.map_cons, List.map_nil, hlabel, hab.2]

/-- Active lines, where the symbols of the statement refer to each other. -/
theorem sameOutcome_of_cycle (h : l.LabelBefore number label name rest)
    (hactive : l.conditions.isActive l.session.symbols = .ok true)
    (hcycle : l.session.symbols.settle SymbolTable.maxPasses rest = none) (k : Nat) :
    SameOutcome SameLoaded (l.loadLines tree search load number [label ++ ':' :: rest]).result
      (l.loadLines tree search load k [label ++ [':'], rest]).result := by
  have hwhole : (l.lineReader number).symbols.settle SymbolTable.maxPasses (label ++ ':' :: rest) =
      none := by
    rw [show (l.lineReader number).symbols = l.session.symbols from rfl,
      Reader.resolve_label h.mayName.1 h.resolves, hcycle]
    rfl
  have hpart : ((after l name).lineReader (k + 1)).symbols.settle SymbolTable.maxPasses rest =
      none := by
    rw [← hcycle, ← symbols_after l name]
    rfl
  obtain ⟨e, he, hkind⟩ :=
    Reader.readLine_of_cycle (Reader.splitComment_label h.spelled h.no_comment) hwhole
  obtain ⟨e', he', hkind'⟩ := Reader.readLine_of_cycle h.no_comment hpart
  rw [result_loadLines_one,
    result_loadLine_active (Reader.trim_label_ne_sharp h.spelled rest) hactive, he,
    h.result_loadLines hactive,
    result_loadLine_active h.no_directive ((isActive_after l name).trans hactive), he']
  exact .error (hkind.trans hkind'.symm)

/-- Inactive lines do not count. -/
theorem sameOutcome_of_inactive (h : l.LabelBefore number label name rest)
    (hactive : l.conditions.isActive l.session.symbols = .ok false) (k : Nat) :
    SameOutcome SameLoaded (l.loadLines tree search load number [label ++ ':' :: rest]).result
      (l.loadLines tree search load k [label ++ [':'], rest]).result := by
  obtain ⟨i, hi, hone⟩ :=
    result_loadLine_inactive (Reader.trim_label_ne_sharp h.spelled rest) hactive number
  obtain ⟨j, hj, hfirst⟩ :=
    result_loadLine_inactive (Reader.trim_label_ne_sharp h.spelled []) hactive k
  obtain ⟨j', hj', hsecond⟩ := result_loadLine_inactive h.no_directive hactive (k + 1)
  rw [result_loadLines_one, hone, result_loadLines_two, hfirst, ok_bind, ok_bind, hsecond]
  exact .ok ⟨rfl, by simp [hi, hj, hj']⟩

end LabelBefore

end Loading

/-- **A label before a statement is the same as a label on the line above it**, up to line numbers:
both ways of writing give the same items and lead to the same state, or fail with errors of the same
kind. The exception are constants whose value mentions a local label of the block that the label
ends: these can be written on the line of the label, but on the next line the local label is
unknown. -/
theorem label_line_as_two_lines (tree : FileTree) (isa : Isa) (options : Options) (l : Loading)
    (hl : l.Arises tree isa options) (search : List Place) (load : Loading.Include) (number k : Nat)
    (label name rest : List Char) (h : l.LabelBefore number label name rest) :
    (¬ l.HidesLocal name rest →
      SameOutcome Loading.SameLoaded
        (l.loadLines tree search load number [label ++ ':' :: rest]).result
        (l.loadLines tree search load k [label ++ [':'], rest]).result) ∧
    (l.HidesLocal name rest → l.conditions.isActive l.session.symbols = .ok true →
      ∀ r, (l.loadLines tree search load number [label ++ ':' :: rest]).result = .ok r →
        ∃ e, (l.loadLines tree search load k [label ++ [':'], rest]).result = .error e ∧
          e.kind = .label) := by
  have hfile := hl.inFile
  have hnamed := hl.ready.noLocals
  refine ⟨fun hhides => ?_, fun hhides hactive r hr => ?_⟩
  · cases hactive : l.conditions.isActive l.session.symbols with
    | error e =>
      rw [Loading.result_loadLines_one, Loading.result_loadLines_two,
        Loading.result_loadLine_stuck (Reader.trim_label_ne_sharp h.spelled rest) hactive,
        Loading.result_loadLine_stuck (Reader.trim_label_ne_sharp h.spelled []) hactive]
      exact .error rfl
    | ok active =>
      cases active with
      | false => exact h.sameOutcome_of_inactive hactive k
      | true =>
        cases hcode : l.session.symbols.settle SymbolTable.maxPasses rest with
        | none => exact h.sameOutcome_of_cycle hactive hcode k
        | some code =>
          have hresolve : l.session.symbols.resolve (String.ofList rest) =
              .ok (String.ofList code) := by
            rw [SymbolTable.resolve_eq_ok, String.toList_ofList, String.toList_ofList, hcode]
          exact h.sameOutcome_of_code hfile hnamed hhides hactive hresolve k
  · obtain ⟨-, code, hcode, -⟩ := id hhides
    rw [Loading.result_loadLines_one, h.result_loadLine_both hactive hcode] at hr
    obtain ⟨_, hboth, -⟩ := bind_eq_ok.mp hr
    obtain ⟨read, hread, -⟩ := bind_eq_ok.mp hboth
    obtain ⟨e, he, hkind⟩ :=
      Loading.LabelBefore.readStatement_after_of_hides hfile hnamed (h.single code hcode) hhides
      hcode hread (k + 1)
    refine ⟨e, ?_, hkind⟩
    rw [h.result_loadLines hactive, h.result_loadLine_statement hactive hcode, he]
    rfl

/-- After the lines `first:` and `.y = 5`, the next line has a label before a statement that
mentions `.y`. It makes no difference for a data statement where the label stands, and it does for a
constant. -/
theorem label_line_as_two_lines_local_label :
    let isa := Isa.bare { size := 8, segment := 8, order := .big } (by decide) (by decide)
    let tree : FileTree := { files := [], directories := [] }
    let load : Loading.Include := fun s place line => Loading.loadFile tree [] 0 s place (some line)
    ∃ l : Loading, l.Arises tree isa {} ∧
      (l.LabelBefore 3 ['L'] ['L'] " .byte .y".toList ∧ ¬ l.HidesLocal ['L'] " .byte .y".toList ∧
        SameOutcome Loading.SameLoaded (l.loadLines tree [] load 3 ["L: .byte .y".toList]).result
          (l.loadLines tree [] load 3 ["L:".toList, " .byte .y".toList]).result) ∧
      l.LabelBefore 3 ['L'] ['L'] " x = .y".toList ∧ l.HidesLocal ['L'] " x = .y".toList ∧
        (l.loadLines tree [] load 3 ["L: x = .y".toList]).result.isOk = true ∧
        ∃ e, (l.loadLines tree [] load 3 ["L:".toList, " x = .y".toList]).result = .error e ∧
          e.kind = .label := by
  intro isa tree load
  let Facts (l : Loading) : Prop :=
    (l.LabelBefore 3 ['L'] ['L'] " .byte .y".toList ∧ ¬ l.HidesLocal ['L'] " .byte .y".toList) ∧
      (l.LabelBefore 3 ['L'] ['L'] " x = .y".toList ∧ l.HidesLocal ['L'] " x = .y".toList) ∧
      l.conditions.isActive l.session.symbols = .ok true ∧
      (l.loadLines tree [] load 3 ["L: x = .y".toList]).result.isOk = true
  obtain ⟨l, hl, hfacts⟩ : ∃ l, Loading.Arises tree isa {} l ∧ decide (Facts l) = true :=
    Loading.exists_arises ["main.asm"] ["first:".toList, ".y = 5".toList] (by decide +kernel)
  obtain ⟨⟨hbyte, hseen⟩, ⟨hconstant, hhides⟩, hactive, hok⟩ := of_decide_eq_true hfacts
  have hboth := label_line_as_two_lines tree isa {} l hl [] load 3 3 ['L'] ['L']
  refine ⟨l, hl, ⟨hbyte, hseen, (hboth _ hbyte).1 hseen⟩, hconstant, hhides, hok, ?_⟩
  cases hone : (l.loadLines tree [] load 3 ["L: x = .y".toList]).result with
  | ok r => exact (hboth _ hconstant).2 hhides hactive r hone
  | error e =>
    rw [hone] at hok
    cases hok

/-- On the line of the label the constant `x` gets the value 5 of the local label `.y` before it. On
the line below the label `.y` is unknown. -/
theorem constant_sees_block_before_label :
    let isa := Isa.bare { size := 8, segment := 8, order := .big } (by decide) (by decide)
    let tree : FileTree := { files := [], directories := [] }
    let load : Loading.Include := fun s place line => Loading.loadFile tree [] 0 s place (some line)
    let below : SourceLine := { file := some 0, name := "main.asm", number := 4 }
    ∃ l : Loading, l.Arises tree isa {} ∧ l.LabelBefore 3 ['L'] ['L'] " x = .y".toList ∧
      (l.loadLines tree [] load 3 ["L: x = .y".toList]).result.map (fun r =>
        r.1.session.env.labels r.1.position.scope r.1.position.active "x") = .ok (some 5) ∧
      (l.loadLines tree [] load 3 ["L:".toList, " x = .y".toList]).result.map (fun _ => ()) =
        .error (Error.ofCauseAt below (ExprError.unknownLabel ".y")) ∧
      ¬ SameOutcome Loading.SameLoaded (l.loadLines tree [] load 3 ["L: x = .y".toList]).result
        (l.loadLines tree [] load 3 ["L:".toList, " x = .y".toList]).result := by
  intro isa tree load below
  let Facts (l : Loading) : Prop :=
    l.LabelBefore 3 ['L'] ['L'] " x = .y".toList ∧
      (l.loadLines tree [] load 3 ["L: x = .y".toList]).result.map (fun r =>
        r.1.session.env.labels r.1.position.scope r.1.position.active "x") = .ok (some 5) ∧
      (l.loadLines tree [] load 3 ["L:".toList, " x = .y".toList]).result.map (fun _ => ()) =
        .error (Error.ofCauseAt below (ExprError.unknownLabel ".y"))
  obtain ⟨l, hl, hfacts⟩ : ∃ l, Loading.Arises tree isa {} l ∧ decide (Facts l) = true :=
    Loading.exists_arises ["main.asm"] ["first:".toList, ".y = 5".toList] (by decide +kernel)
  obtain ⟨hbefore, hone, htwo⟩ := of_decide_eq_true hfacts
  refine ⟨l, hl, hbefore, hone, htwo, fun hsame => ?_⟩
  obtain ⟨r, hr, -⟩ := map_eq_ok.mp hone
  rw [hr] at hsame
  cases hresult : (l.loadLines tree [] load 3 ["L:".toList, " x = .y".toList]).result with
  | ok r' =>
    rw [hresult] at htwo
    cases htwo
  | error e =>
    rw [hresult] at hsame
    cases hsame

end Retarget
