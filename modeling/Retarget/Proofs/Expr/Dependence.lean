import Retarget.Error
import Retarget.Proofs.Expr.Name

/-!
# What expressions depend on

The labels of an expression are all that its value depends on: tests compare numbers only if no
labels are in them, and operands are not expressions if registers are. Where the expression has a
value, it depends on each of them.

* `NameSet.mem_ofList`: a set of names has the names of the list;
* `ParseTree.mem_labels`: the labels of a term are its label tokens;
* `Term.resolved_of_eval`: a term with a value has labels with values only;
* `Term.unknown_of_eval`: a label that is reported as unknown is in the term;
* `eval_depends_on_labels`: what follows for expressions.
-/

namespace Retarget

namespace NameSet

theorem mem_insert {name other : String} {set : NameSet} :
    other ∈ insert name set ↔ other = name ∨ other ∈ set := by
  induction set with
  | nil => exact List.mem_cons
  | cons first rest ih =>
    rw [insert]
    split
    · exact List.mem_cons
    · split
      · rename_i heq
        rw [heq, List.mem_cons, or_self_left]
      · rw [List.mem_cons, ih, List.mem_cons, or_left_comm]

theorem mem_ofList {name : String} {names : List String} : name ∈ ofList names ↔ name ∈ names := by
  have hfold (set : NameSet) :
      name ∈ names.foldl (fun set name => insert name set) set ↔ name ∈ names ∨ name ∈ set := by
    induction names generalizing set with
    | nil => simp
    | cons first rest ih =>
      rw [List.foldl_cons, ih, mem_insert, List.mem_cons, or_assoc, or_left_comm]
  rw [ofList, hfold]
  simp

end NameSet

mutual

/-- The labels of a term are the label tokens that it is read from. -/
theorem ParseTree.mem_labels {n : Nat} (d : ParseTree n) {name : String} :
    name ∈ d.term.labels ↔ Token.label name ∈ d.tokens := by
  match n, d with
  | _, .number text value => simp [Term.labels]
  | _, .label other => simp [Term.labels]
  | _, .closed opening inner =>
    cases opening <;> simp [Opening.wrap, Opening.token, Term.labels, inner.mem_labels]
  | _, .neg operand => simp [Term.labels, operand.mem_labels]
  | n + 1, .joined first more => simp [more.mem_labels, first.mem_labels]

theorem ParseTail.mem_labels {n : Nat} (d : ParseTail n) {left : Term} {name : String} :
    name ∈ (d.extend left).labels ↔ name ∈ left.labels ∨ Token.label name ∈ d.tokens := by
  match d with
  | .done => simp
  | .step op mem operand more => simp [more.mem_labels, operand.mem_labels, Term.labels, or_assoc]

end

theorem Expression.mentionsAny_eq_false {e : Expression} {registers : List String} :
    e.mentionsAny registers = false ↔ ∀ name ∈ e.term.labels, name ∉ registers := by
  have hmem {name : String} : name ∈ e.labels ↔ name ∈ e.term.labels := NameSet.mem_ofList
  simp only [mentionsAny, List.any_eq_false, List.contains_iff_mem, hmem]
  exact ⟨fun h name hname hregister => h name hregister hname,
    fun h name hregister hname => h name hname hregister⟩

/-- What an operator can fail with. It knows no labels. -/
theorem BinOp.apply_eq_error {op : BinOp} {x y : Int} {e : ExprError}
    (h : op.apply x y = .error e) : e = .overflow op.symbol ∨ e = .divisionByZero := by
  have hchecked {v : Int} (h : op.checked v = .error e) : e = .overflow op.symbol := by
    unfold checked at h
    split at h
    · cases h
    · exact (Except.error.inj h).symm
  have hamount {v : Int} (h : op.amount v = .error e) : e = .overflow op.symbol := by
    unfold amount at h
    split at h
    · cases h
    · exact (Except.error.inj h).symm
  cases op with
  | add | sub | mul => exact .inl (hchecked h)
  | div | mod =>
    rw [apply] at h
    split at h
    · exact .inr (Except.error.inj h).symm
    · cases h
  | and | or | xor => cases h
  | shl =>
    rcases bind_eq_error.mp h with h | ⟨n, -, h⟩
    · exact .inl (hamount h)
    · split at h
      · cases h
      · exact .inl (Except.error.inj h).symm
  | shr =>
    rcases bind_eq_error.mp h with h | ⟨n, -, h⟩
    · exact .inl (hamount h)
    · cases h

namespace Term

variable {labels : Labels} {t : Term} {name : String}

/-- All labels of a term that has a value have values. -/
theorem resolved_of_eval {v : Int} (h : t.eval labels = .ok v) (hname : name ∈ t.labels) :
    ∃ w, labels name = some w := by
  induction t generalizing v with
  | number v => cases hname
  | label other =>
    rw [List.mem_singleton.mp hname]
    rw [eval] at h
    cases hother : labels other with
    | none =>
      rw [hother] at h
      cases h
    | some w => exact ⟨w, rfl⟩
  | neg t ih | lsb t ih | byte index t ih =>
    obtain ⟨w, hw, -⟩ := bind_eq_ok.mp h
    exact ih hw hname
  | binary op l r ihl ihr =>
    obtain ⟨x, hx, h⟩ := bind_eq_ok.mp h
    obtain ⟨y, hy, -⟩ := bind_eq_ok.mp h
    rcases List.mem_append.mp hname with hname | hname
    · exact ihl hx hname
    · exact ihr hy hname

/-- A label that is reported as unknown is one of the term, and has no value. -/
theorem unknown_of_eval (h : t.eval labels = .error (.unknownLabel name)) :
    name ∈ t.labels ∧ labels name = none := by
  induction t with
  | number v => cases h
  | label other =>
    rw [eval] at h
    cases hother : labels other with
    | none =>
      rw [hother] at h
      cases h
      exact ⟨List.mem_singleton.mpr rfl, hother⟩
    | some w =>
      rw [hother] at h
      cases h
  | neg t ih | lsb t ih | byte index t ih =>
    rcases bind_eq_error.mp h with h | ⟨w, -, h⟩
    · exact ih h
    · cases h
  | binary op l r ihl ihr =>
    rcases bind_eq_error.mp h with h | ⟨x, -, h⟩
    · obtain ⟨hmem, hnone⟩ := ihl h
      exact ⟨List.mem_append_left _ hmem, hnone⟩
    · rcases bind_eq_error.mp h with h | ⟨y, -, h⟩
      · obtain ⟨hmem, hnone⟩ := ihr h
        exact ⟨List.mem_append_right _ hmem, hnone⟩
      · rcases BinOp.apply_eq_error h with h | h <;> cases h

end Term

/-- The errors of expressions that are about labels. -/
theorem Cause.kind_expr_eq_label {e : ExprError} :
    (Cause.expr e).kind = .label ↔ ∃ name, e = .unknownLabel name := by
  cases e <;> simp [Cause.kind]

/-- **An expression depends on its labels and on nothing else.** Labels that agree on those of the
expression give the same value or the same error. If all of them have values, the error is never
about a label; if it is, it names a label of the expression that has no value. An expression has a
value only where all its labels have one. So an expression without labels is evaluated alike under
all labels, and one that mentions no register whatever registers are taken for. -/
theorem eval_depends_on_labels (e : Expression) :
    (∀ labels labels' : Labels, (∀ name ∈ e.labels, labels name = labels' name) →
      e.eval labels = e.eval labels') ∧
    (∀ labels : Labels, (∀ name ∈ e.labels, ∃ v, labels name = some v) →
      ∀ err, e.eval labels = .error err → (Cause.expr err).kind ≠ .label) ∧
    (∀ (labels : Labels) (err : ExprError), e.eval labels = .error err →
      (Cause.expr err).kind = .label →
      ∃ name ∈ e.labels, err = .unknownLabel name ∧ labels name = none) ∧
    (∀ (labels : Labels) (v : Int), e.eval labels = .ok v → ∀ name ∈ e.labels, ∃ w,
      labels name = some w) ∧
    (e.labels = [] → ∀ labels labels' : Labels, e.eval labels = e.eval labels') ∧
    ∀ registers : List String, e.mentionsAny registers = false → ∀ labels labels' : Labels,
      (∀ name, name ∉ registers → labels name = labels' name) → e.eval labels = e.eval labels' := by
  have hmem {name : String} : name ∈ e.labels ↔ name ∈ e.term.labels := NameSet.mem_ofList
  have hcongr (labels labels' : Labels) (h : ∀ name ∈ e.labels, labels name = labels' name) :
      e.eval labels = e.eval labels' :=
    Term.eval_congr fun name hname => h name (hmem.mpr hname)
  have hunknown (labels : Labels) (err : ExprError) (h : e.eval labels = .error err)
      (hkind : (Cause.expr err).kind = .label) : ∃ name ∈ e.labels, err = .unknownLabel name ∧
        labels name = none := by
    obtain ⟨name, rfl⟩ := Cause.kind_expr_eq_label.mp hkind
    obtain ⟨hname, hnone⟩ := Term.unknown_of_eval h
    exact ⟨name, hmem.mpr hname, rfl, hnone⟩
  refine ⟨hcongr, fun labels hall err herr hkind => ?_, hunknown, fun labels v hv name hname => ?_,
    fun hempty labels labels' => ?_, fun registers hregisters labels labels' hagree => ?_⟩
  · obtain ⟨name, hname, -, hnone⟩ := hunknown labels err herr hkind
    obtain ⟨v, hv⟩ := hall name hname
    rw [hnone] at hv
    cases hv
  · exact Term.resolved_of_eval hv (hmem.mp hname)
  · refine hcongr labels labels' fun name hname => ?_
    rw [hempty] at hname
    cases hname
  · refine hcongr labels labels' fun name hname => hagree name fun hregister => ?_
    have hmentions : e.mentionsAny registers = true :=
      List.any_eq_true.mpr ⟨name, hregister, List.contains_iff_mem.mpr hname⟩
    rw [hregisters] at hmentions
    cases hmentions

/-- A divisor that is zero is not an error about labels; the first label without a value is one. -/
theorem eval_depends_on_labels_zero_divisor :
    let labels : Labels :=
      fun name => if name = "x" then some 7 else if name = "y" then some 4 else none
    ∃ e, Expression.parse "x / (y - 4)" = .ok e ∧ e.labels = ["x", "y"] ∧
      e.eval labels = e.eval (fun name => if name = "sp" then some 1 else labels name) ∧
      e.eval labels = .error .divisionByZero ∧ (Cause.expr .divisionByZero).kind ≠ .label ∧
      ∃ name ∈ e.labels, e.eval (fun _ => none) = .error (.unknownLabel name) := by
  intro labels
  let e : Expression :=
    { text := "x / (y - 4)",
      term := .binary .div (.label "x") (.binary .sub (.label "y") (.number 4)) }
  have hlabels : e.labels = ["x", "y"] := by decide +kernel
  have hzero : e.eval labels = .error .divisionByZero := by decide +kernel
  obtain ⟨-, hkind, hunknown, -, -, hregisters⟩ := eval_depends_on_labels e
  refine ⟨e, by decide +kernel, hlabels, ?_, hzero, hkind labels (fun name hname => ?_) _ hzero, ?_⟩
  · refine hregisters ["sp"] (by decide +kernel) _ _ fun name hname => ?_
    rw [if_neg (by simpa using hname)]
  · rw [hlabels] at hname
    rcases List.mem_pair.mp hname with rfl | rfl
    · exact ⟨7, rfl⟩
    · exact ⟨4, rfl⟩
  · obtain ⟨name, hname, herr, -⟩ := hunknown (fun _ => none) (.unknownLabel "x") rfl rfl
    exact ⟨name, hname, congrArg Except.error herr⟩

end Retarget
