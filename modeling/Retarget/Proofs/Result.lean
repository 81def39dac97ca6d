import Mathlib.Data.List.Forall2
import Retarget.Assembly.Session

/-!
# Results of steps

Steps that can fail are chained with `do`. A proof takes such a chain apart from its result:

* `bind_eq_ok`, `bind_eq_error`: how a chain of two steps succeeds and fails;
* `map_eq_ok`: what is known of a result through a view of it;
* `mapM_eq_ok`: a step for each item of a list;
* `Error.lift_eq_ok` and the like: naming a cause or a line changes no result;
* `FailsOnly`, `Gives`: which causes the errors of a result have, and what its successes satisfy;
* `Report.result_bind`: the result of a report is that of the steps without what they print;
* `Report.gives_bind`: what a report gives, step by step.
-/

namespace Retarget

section Chains

variable {ε α β : Type}

theorem bind_eq_ok {x : Except ε α} {f : α → Except ε β} {b : β} :
    (x >>= f) = .ok b ↔ ∃ a, x = .ok a ∧ f a = .ok b := by
  cases x with
  | error e => simp [bind, Except.bind]
  | ok a => simp [bind, Except.bind]

theorem bind_eq_error {x : Except ε α} {f : α → Except ε β} {e : ε} :
    (x >>= f) = .error e ↔ x = .error e ∨ ∃ a, x = .ok a ∧ f a = .error e := by
  cases x with
  | error e => simp [bind, Except.bind]
  | ok a => simp [bind, Except.bind]

theorem exists_error_iff {x : Except ε α} : (∃ e, x = .error e) ↔ ¬ ∃ a, x = .ok a := by
  cases x <;> simp

@[simp] theorem pure_eq_ok {a b : α} : (pure a : Except ε α) = .ok b ↔ a = b := by
  simp [pure, Except.pure]

@[simp] theorem ok_bind (a : α) (f : α → Except ε β) : (Except.ok a >>= f) = f a := rfl

@[simp] theorem error_bind (e : ε) (f : α → Except ε β) : (Except.error e >>= f) = .error e := rfl

theorem map_eq_ok {x : Except ε α} {f : α → β} {b : β} :
    x.map f = .ok b ↔ ∃ a, x = .ok a ∧ f a = b := by
  cases x <;> simp [Except.map]

theorem toOption_eq_some {x : Except ε α} {a : α} : x.toOption = some a ↔ x = .ok a := by
  cases x <;> simp [Except.toOption]

/-- A step for each item of a list. -/
theorem mapM_eq_ok {f : α → Except ε β} {xs : List α} {ys : List β} :
    xs.mapM f = .ok ys ↔ List.Forall₂ (fun x y => f x = .ok y) xs ys := by
  induction xs generalizing ys with
  | nil => rw [List.mapM_nil, pure_eq_ok, List.forall₂_nil_left_iff, eq_comm]
  | cons x xs ih =>
    rw [List.mapM_cons, bind_eq_ok, List.forall₂_cons_left_iff]
    constructor
    · rintro ⟨y, hy, h⟩
      obtain ⟨zs, hzs, h⟩ := bind_eq_ok.mp h
      exact ⟨y, zs, hy, ih.mp hzs, (pure_eq_ok.mp h).symm⟩
    · rintro ⟨y, zs, hy, hzs, rfl⟩
      exact ⟨y, hy, bind_eq_ok.mpr ⟨zs, ih.mpr hzs, rfl⟩⟩

/-- Two steps for each item may be made one after the other for all of them. -/
theorem mapM_bind_eq_ok {γ : Type} {f : α → Except ε β} {g : β → Except ε γ} {xs : List α}
    {zs : List γ} :
    xs.mapM (fun x => f x >>= g) = .ok zs ↔ ∃ ys, xs.mapM f = .ok ys ∧ ys.mapM g = .ok zs := by
  simp only [mapM_eq_ok, bind_eq_ok]
  induction xs generalizing zs with
  | nil => simp
  | cons x xs ih =>
    rw [List.forall₂_cons_left_iff]
    constructor
    · rintro ⟨z, rest, ⟨y, hy, hz⟩, hrest, rfl⟩
      obtain ⟨ys, hys, hzs⟩ := ih.mp hrest
      exact ⟨y :: ys, .cons hy hys, .cons hz hzs⟩
    · rintro ⟨_, hys, hzs⟩
      cases hys with
      | cons hy hys =>
        cases hzs with
        | cons hz hzs => exact ⟨_, _, ⟨_, hy, hz⟩, ih.mpr ⟨_, hys, hzs⟩, rfl⟩

/-- Steps that all succeed. -/
theorem exists_mapM_eq_ok {f : α → Except ε β} {xs : List α} (h : ∀ x ∈ xs, ∃ y, f x = .ok y) :
    ∃ ys, xs.mapM f = .ok ys := by
  induction xs with
  | nil => exact ⟨[], rfl⟩
  | cons x xs ih =>
    obtain ⟨y, hy⟩ := h x List.mem_cons_self
    obtain ⟨ys, hys⟩ := ih fun z hz => h z (List.mem_cons_of_mem x hz)
    exact ⟨y :: ys, mapM_eq_ok.mpr (.cons hy (mapM_eq_ok.mp hys))⟩

/-- What an item of the first list goes with. -/
theorem exists_of_forall₂_left {R : α → β → Prop} {xs : List α} {ys : List β}
    (h : List.Forall₂ R xs ys) {x : α} (hx : x ∈ xs) : ∃ y ∈ ys, R x y := by
  induction h with
  | nil => cases hx
  | cons hxy _ ih =>
    rcases List.mem_cons.mp hx with rfl | hx
    · exact ⟨_, List.mem_cons_self, hxy⟩
    · obtain ⟨y, hy, hxy⟩ := ih hx
      exact ⟨y, List.mem_cons_of_mem _ hy, hxy⟩

theorem exists_of_forall₂_right {R : α → β → Prop} {xs : List α} {ys : List β}
    (h : List.Forall₂ R xs ys) {y : β} (hy : y ∈ ys) : ∃ x ∈ xs, R x y :=
  exists_of_forall₂_left h.flip hy

end Chains

namespace Error

variable {ε α : Type} [IsCause ε]

@[simp] theorem lift_eq_ok {r : Except ε α} {a : α} : lift r = .ok a ↔ r = .ok a := by
  cases r <;> simp [lift, Except.mapError]

@[simp] theorem liftAt_eq_ok {line : SourceLine} {r : Except ε α} {a : α} :
    liftAt line r = .ok a ↔ r = .ok a := by
  cases r <;> simp [liftAt, Except.mapError]

@[simp] theorem attach_eq_ok {line : SourceLine} {r : Except Error α} {a : α} :
    attach line r = .ok a ↔ r = .ok a := by
  cases r <;> simp [attach, Except.mapError]

theorem liftAt_bind {β : Type} (line : SourceLine) (r : Except ε α) (f : α → Except ε β) :
    liftAt line (r >>= f) = liftAt line r >>= fun a => liftAt line (f a) := by
  cases r <;> rfl

end Error

/-- Every error of a result has a cause that `P` allows. -/
def FailsOnly {α : Type} (P : Cause → Prop) (r : Except Error α) : Prop :=
  ∀ e, r = .error e → P e.cause

namespace FailsOnly

variable {α β ε : Type} [IsCause ε] {P : Cause → Prop}

theorem ok (a : α) : FailsOnly P (.ok a) := by
  intro e h
  cases h

theorem bind {x : Except Error α} {f : α → Except Error β} (hx : FailsOnly P x)
    (hf : ∀ a, FailsOnly P (f a)) : FailsOnly P (x >>= f) := by
  intro e h
  rcases bind_eq_error.mp h with h | ⟨a, -, h⟩
  · exact hx e h
  · exact hf a e h

theorem lift {r : Except ε α} (h : ∀ e : ε, P (IsCause.cause e)) : FailsOnly P (Error.lift r) := by
  intro e he
  cases r with
  | error e' => cases he; exact h e'
  | ok a => cases he

theorem liftAt {line : SourceLine} {r : Except ε α} (h : ∀ e : ε, P (IsCause.cause e)) :
    FailsOnly P (Error.liftAt line r) := by
  intro e he
  cases r with
  | error e' => cases he; exact h e'
  | ok a => cases he

theorem failAt {line : SourceLine} {e : ε} (h : P (IsCause.cause e)) :
    FailsOnly P (Error.failAt line e : Except Error α) := by
  intro e' he
  cases he
  exact h

theorem attach {line : SourceLine} {r : Except Error α} (h : FailsOnly P r) :
    FailsOnly P (Error.attach line r) := by
  intro e he
  cases r with
  | error e' =>
    cases he
    have hcause : (e'.orAt line).cause = e'.cause := by unfold Error.orAt; split <;> rfl
    rw [hcause]
    exact h e' rfl
  | ok a => cases he

end FailsOnly

/-- Every success of a result satisfies `P`. -/
def Gives {α ε : Type} (P : α → Prop) (r : Except ε α) : Prop := ∀ a, r = .ok a → P a

namespace Gives

variable {α β ε : Type} {P : β → Prop}

theorem pure {b : β} (h : P b) : Gives P (pure b : Except ε β) := by
  intro b' hb
  rwa [← pure_eq_ok.mp hb]

theorem bind {x : Except ε α} {f : α → Except ε β} (h : ∀ a, Gives P (f a)) :
    Gives P (x >>= f) := by
  intro b hb
  obtain ⟨a, -, hb⟩ := bind_eq_ok.mp hb
  exact h a b hb

theorem failAt [IsCause ε] {line : SourceLine} {e : ε} :
    Gives P (Error.failAt line e : Except Error β) := by
  intro b hb
  cases hb

/-- What every step keeps holds after all of them. -/
theorem foldlM {f : β → α → Except ε β} (hf : ∀ b a, P b → Gives P (f b a)) {b : β} (hb : P b)
    (xs : List α) : Gives P (xs.foldlM f b) := by
  induction xs generalizing b with
  | nil => exact .pure hb
  | cons x xs ih =>
    rw [List.foldlM_cons]
    intro c hc
    obtain ⟨b', hb', hc⟩ := bind_eq_ok.mp hc
    exact ih (hf b x hb b' hb') c hc

end Gives

namespace Report

variable {α β : Type}

@[simp] theorem result_ofExcept (r : Except Error α) : (ofExcept r).result = r := rfl

theorem ofExcept_ok_bind (a : α) (f : α → Report β) : ofExcept (.ok a) >>= f = f a := rfl

theorem ofExcept_error_bind (e : Error) (f : α → Report β) : ofExcept (.error e) >>= f = fail e :=
  rfl

theorem ofExcept_bind (r : Except Error α) (f : α → Except Error β) :
    ofExcept (r >>= f) = ofExcept r >>= fun a => ofExcept (f a) := by
  cases r <;> rfl

/-- What steps print does not change their results. -/
@[simp] theorem result_bind (r : Report α) (f : α → Report β) :
    (r >>= f).result = r.result >>= fun a => (f a).result := by
  show (Report.bind r f).result = _
  unfold Report.bind
  cases r.result <;> rfl

theorem result_bind_eq_ok {r : Report α} {f : α → Report β} {b : β} :
    (r >>= f).result = .ok b ↔ ∃ a, r.result = .ok a ∧ (f a).result = .ok b := by
  rw [result_bind, bind_eq_ok]

/-- What the first step gives is known in the second one. -/
theorem gives_bind {P : α → Prop} {Q : β → Prop} {r : Report α} {f : α → Report β}
    (hr : Gives P r.result) (hf : ∀ a, P a → Gives Q (f a).result) : Gives Q (r >>= f).result := by
  rw [result_bind]
  intro b hb
  obtain ⟨a, ha, hb⟩ := bind_eq_ok.mp hb
  exact hf a (hr a ha) b hb

/-- Where the first step does not matter. -/
theorem gives_of_bind {Q : β → Prop} {r : Report α} {f : α → Report β}
    (hf : ∀ a, Gives Q (f a).result) : Gives Q (r >>= f).result :=
  gives_bind (P := fun _ => True) (fun _ _ => trivial) fun a _ => hf a

end Report

/-- A message is no reason to fail. -/
theorem Session.result_log (s : Session) (level : Nat) (text : String) :
    (s.log level text).result = .ok () := by
  unfold log
  split
  · rfl
  · rfl

end Retarget
