import Mathlib.Data.Int.Bitwise
import Retarget.Proofs.Expr.Printing

/-!
# Expressions over the integers

Terms are evaluated in 128 bits, with a limit behaviour of its own for each operator.
`Term.unbounded` is the value of a term over the integers, where only left shifts are reduced and
long right shifts have a value of their own, and `Term.fault` the first reason, from left to right,
why a term has no value.

* `Number.toInt_bitwise`: patterns that are combined bit by bit are those of the integers combined
  bit by bit;
* `BinOp.apply_agrees`: an operator gives its result over the integers, apart from quotients that
  leave the range;
* `Term.eval_agrees`: so does a term;
* `eval_is_unbounded`: and every expression that was read.
-/

namespace Retarget

/-! ## Numbers and their patterns -/

namespace Number

variable {x y : Int}

theorem getLsbD_pattern (v : Int) {i : Nat} (h : i < 128) :
    (pattern v).getLsbD i = v.testBit i := by
  have hnat (m : Nat) : (BitVec.ofNat 128 m).getLsbD i = m.testBit i := by
    rw [BitVec.getLsbD_ofNat, decide_eq_true h, Bool.true_and]
  cases v with
  | ofNat m => exact hnat m
  | negSucc m =>
    rw [pattern, BitVec.ofInt_negSucc_eq_not_ofNat, BitVec.getLsbD_not, decide_eq_true h,
      Bool.true_and, hnat]
    rfl

/-- Integers that are combined bit by bit stay in the range: beyond it all bits are those of the
sign. -/
theorem fits_bitwise (f : Bool → Bool → Bool) (hx : fits x = true) (hy : fits y = true) :
    fits (Int.bitwise f x y) = true := by
  rw [fits_iff] at *
  have hnat (g : Bool → Bool → Bool) {m n : Nat} (hm : m < 2 ^ 127) (hn : n < 2 ^ 127) :
      -2 ^ 127 ≤ Int.natBitwise g m n ∧ Int.natBitwise g m n < 2 ^ 127 := by
    unfold Int.natBitwise
    cases g false false with
    | false =>
      have := Nat.bitwise_lt_two_pow (f := g) hm hn
      rw [cond_false]
      omega
    | true =>
      have := Nat.bitwise_lt_two_pow (f := fun x y => !g x y) hm hn
      rw [cond_true]
      omega
  cases x with
  | ofNat m =>
    rw [Int.ofNat_eq_natCast] at hx
    cases y with
    | ofNat n =>
      rw [Int.ofNat_eq_natCast] at hy
      refine hnat f ?_ ?_ <;> omega
    | negSucc n => refine hnat (fun x y => f x !y) ?_ ?_ <;> omega
  | negSucc m =>
    cases y with
    | ofNat n =>
      rw [Int.ofNat_eq_natCast] at hy
      refine hnat (fun x y => f (!x) y) ?_ ?_ <;> omega
    | negSucc n => refine hnat (fun x y => f (!x) !y) ?_ ?_ <;> omega

/-- **Patterns that are combined bit by bit** are those of the integers combined in the same way. -/
theorem toInt_bitwise {f : Bool → Bool → Bool} (hx : fits x = true) (hy : fits y = true)
    {p : BitVec 128}
    (hp : ∀ i < 128, p.getLsbD i = f ((pattern x).getLsbD i) ((pattern y).getLsbD i)) :
    p.toInt = Int.bitwise f x y := by
  have heq : p = pattern (Int.bitwise f x y) := by
    refine BitVec.eq_of_getLsbD_eq fun i hi => ?_
    rw [hp i hi, getLsbD_pattern x hi, getLsbD_pattern y hi, getLsbD_pattern _ hi,
      Int.testBit_bitwise]
  obtain ⟨hle, hlt⟩ := fits_iff.mp (fits_bitwise f hx hy)
  rw [heq]
  exact wrap_eq_self hle hlt

theorem toInt_shiftLeft (x : Int) (n : Nat) :
    (pattern x <<< n).toInt = (x * 2 ^ n).bmod (2 ^ 128) := by
  have hmod : ((pattern x).toNat : Int) = x % (2 ^ 128 : Nat) := by
    rw [pattern, BitVec.toNat_ofInt]
    omega
  rw [BitVec.toInt_shiftLeft, Nat.shiftLeft_eq, Int.natCast_mul, hmod, Int.emod_mul_bmod,
    Int.natCast_pow]
  rfl

theorem fits_bmod (v : Int) : fits (v.bmod (2 ^ 128)) = true := by
  have hle := Int.le_bmod (x := v) (m := 2 ^ 128) (by decide)
  have hlt := Int.bmod_lt (x := v) (m := 2 ^ 128) (by decide)
  rw [fits_iff]
  omega

/-- Only the least number has a quotient outside the range. -/
theorem fits_tdiv (hx : fits x = true) (hy : y ≠ 0) (hlimit : ¬ (x = -2 ^ 127 ∧ y = -1)) :
    fits (x.tdiv y) = true := by
  rw [fits_iff] at *
  have habs := Int.natAbs_tdiv_le_natAbs x y
  by_cases hleast : x = -2 ^ 127
  · by_cases hone : y = 1
    · rw [hone, Int.tdiv_one]
      exact hx
    · have htwo : 2 ≤ y.natAbs := by omega
      have hhalf : (x.tdiv y).natAbs ≤ x.natAbs / 2 := by
        rw [Int.natAbs_tdiv]
        exact Nat.div_le_div_left htwo (by decide)
      omega
  · omega

theorem fits_emod (hy : fits y = true) (hne : y ≠ 0) : fits (x % y) = true := by
  rw [fits_iff] at *
  have hnonneg := Int.emod_nonneg x hne
  have hlt := Int.emod_lt x hne
  omega

theorem fits_ediv_two_pow (hx : fits x = true) (n : Nat) : fits (x / 2 ^ n) = true := by
  rw [fits_iff] at *
  have hpos : (0 : Int) < 2 ^ n := Int.pow_pos (by decide)
  have habs := Int.natAbs_ediv_le_natAbs x (2 ^ n)
  by_cases hneg : 0 ≤ x
  · have := Int.ediv_nonneg hneg hpos.le
    omega
  · have := Int.ediv_neg_of_neg_of_pos (by omega : x < 0) hpos
    omega

theorem byteAt_eq {index : Nat} (h : index < 16) (v : Int) :
    byteAt index v = v / 2 ^ (8 * index) % 2 ^ 8 := by
  rw [byteAt, if_pos h, Int.shiftRight_eq_div_pow, Int.natCast_pow]
  rfl

end Number

/-! ## Operators -/

/-- A result is the fault, where there is one, and otherwise the number `v`. -/
def Agrees (result : Except ExprError Int) (fault : Option ExprError) (v : Int) : Prop :=
  (∀ e, fault = some e → result = .error e) ∧ (fault = none → result = .ok v ∧ Number.fits v = true)

namespace Agrees

variable {result : Except ExprError Int} {fault : Option ExprError} {e : ExprError} {v : Int}

theorem ok (h : Number.fits v = true) : Agrees (.ok v) none v := by
  refine ⟨fun e hnone => ?_, fun _ => ⟨rfl, h⟩⟩
  cases hnone

theorem error : Agrees (.error e) (some e) v := by
  refine ⟨fun e' h => ?_, fun hnone => ?_⟩
  · rw [Option.some.inj h]
  · cases hnone

theorem of_ite {c : Prop} [Decidable c] (hok : c → result = .ok v ∧ Number.fits v = true)
    (herror : ¬ c → result = .error e) : Agrees result (if c then none else some e) v := by
  by_cases h : c
  · obtain ⟨hresult, hfits⟩ := hok h
    rw [if_pos h, hresult]
    exact ok hfits
  · rw [if_neg h, herror h]
    exact error

/-- The faults of two steps are found one after the other. -/
theorem bind (h : Agrees result fault v) {step : Int → Except ExprError Int}
    {later : Option ExprError} {w : Int}
    (hstep : result = .ok v → Number.fits v = true → Agrees (step v) later w) :
    Agrees (result >>= step) (fault.or later) w := by
  cases fault with
  | some e =>
    rw [h.1 e rfl]
    exact error
  | none =>
    obtain ⟨hresult, hfits⟩ := h.2 rfl
    rw [hresult, ok_bind, Option.none_or]
    exact hstep hresult hfits

/-- A step that always has a result adds no fault. -/
theorem bind_ok (h : Agrees result fault v) {step : Int → Int} {w : Int}
    (hstep : result = .ok v → Number.fits v = true → step v = w ∧ Number.fits w = true) :
    Agrees (result >>= fun v => .ok (step v)) fault w := by
  rw [← Option.or_none (o := fault)]
  refine h.bind fun hresult hfits => ?_
  obtain ⟨rfl, hw⟩ := hstep hresult hfits
  exact ok hw

end Agrees

namespace BinOp

/-- The result of an operator over the integers. A quotient is truncated and a remainder never
negative; the operations on bits act on two's complement without end. A left shift is reduced to 128
bits, and a right shift by 128 or more gives zero. -/
def unbounded (x y : Int) : BinOp → Int
  | add => x + y
  | sub => x - y
  | mul => x * y
  | div => x.tdiv y
  | mod => x % y
  | and => x.land y
  | or => x.lor y
  | xor => x.xor y
  | shl => (x * 2 ^ y.toNat).bmod (2 ^ 128)
  | shr => if y < 128 then x / 2 ^ y.toNat else 0

/-- Why an operator gives no result: a sum, difference or product outside the range, a division by
zero, or a shift by what is no count. -/
def fault (x y : Int) (op : BinOp) : Option ExprError :=
  match op with
  | add | sub | mul =>
    if -2 ^ 127 ≤ op.unbounded x y ∧
      op.unbounded x y < 2 ^ 127 then none else some (.overflow op.symbol)
  | div | mod => if y ≠ 0 then none else some .divisionByZero
  | and | or | xor => none
  | shl => if 0 ≤ y ∧ y < 128 then none else some (.overflow op.symbol)
  | shr => if 0 ≤ y ∧ y < 2 ^ 32 then none else some (.overflow op.symbol)

variable {x y : Int}

theorem checked_agrees (op : BinOp) (v : Int) :
    Agrees (op.checked v) (if -2 ^ 127 ≤ v ∧
      v < 2 ^ 127 then none else some (.overflow op.symbol)) v := by
  refine .of_ite (fun h => ?_) fun h => ?_
  · have hfits := Number.fits_iff.mpr h
    exact ⟨if_pos hfits, hfits⟩
  · exact if_neg fun hfits => h (Number.fits_iff.mp hfits)

/-- An operation on bits has no fault. -/
theorem bitwise_agrees {f : Bool → Bool → Bool} (hx : Number.fits x = true)
    (hy : Number.fits y = true) {p : BitVec 128}
    (hp : ∀ i < 128,
      p.getLsbD i = f ((Number.pattern x).getLsbD i) ((Number.pattern y).getLsbD i)) :
    Agrees (.ok p.toInt) none (Int.bitwise f x y) := by
  rw [Number.toInt_bitwise hx hy hp]
  exact .ok (Number.fits_bitwise f hx hy)

/-- **What an operator gives for two numbers,** apart from the quotient that leaves the range. -/
theorem apply_agrees (op : BinOp) (hx : Number.fits x = true) (hy : Number.fits y = true)
    (hlimit : op = div ∨ op = mod → ¬ (x = -2 ^ 127 ∧ y = -1)) :
    Agrees (op.apply x y) (op.fault x y) (op.unbounded x y) := by
  cases op with
  | add | sub | mul => exact checked_agrees _ _
  | div =>
    refine .of_ite (fun hne => ?_) fun heq => ?_
    · have hfits := Number.fits_tdiv hx hne (hlimit (.inl rfl))
      obtain ⟨hle, hlt⟩ := Number.fits_iff.mp hfits
      rw [apply, if_neg hne, Number.wrap_eq_self hle hlt]
      exact ⟨rfl, hfits⟩
    · rw [apply, if_pos (not_not.mp heq)]
  | mod =>
    refine .of_ite (fun hne => ?_) fun heq => ?_
    · rw [apply, if_neg hne]
      exact ⟨rfl, Number.fits_emod hy hne⟩
    · rw [apply, if_pos (not_not.mp heq)]
  | and =>
    rw [unbounded, ← Int.bitwise_and]
    exact bitwise_agrees hx hy fun i _ => BitVec.getLsbD_and
  | or =>
    rw [unbounded, ← Int.bitwise_or]
    exact bitwise_agrees hx hy fun i _ => BitVec.getLsbD_or
  | xor =>
    rw [unbounded, ← Int.bitwise_xor]
    exact bitwise_agrees hx hy fun i _ => BitVec.getLsbD_xor
  | shl =>
    refine .of_ite (fun h => ?_) fun h => ?_
    · have hamount : amount shl y = .ok y.toNat := if_pos ⟨h.1, by omega⟩
      rw [apply, hamount, ok_bind, if_pos (by omega), Number.toInt_shiftLeft]
      exact ⟨rfl, Number.fits_bmod _⟩
    · by_cases hcount : 0 ≤ y ∧ y < 2 ^ 32
      · have hamount : amount shl y = .ok y.toNat := if_pos hcount
        rw [apply, hamount, ok_bind, if_neg (by omega)]
      · have hamount : amount shl y = .error (.overflow shl.symbol) := if_neg hcount
        rw [apply, hamount, error_bind]
  | shr =>
    refine .of_ite (fun h => ?_) fun h => ?_
    · have hamount : amount shr y = .ok y.toNat := if_pos h
      rw [apply, hamount, ok_bind, unbounded, Number.shiftRight]
      by_cases hlong : y < 128
      · rw [if_pos (by omega), if_pos hlong, Int.shiftRight_eq_div_pow, Int.natCast_pow]
        exact ⟨rfl, Number.fits_ediv_two_pow hx _⟩
      · rw [if_neg (by omega), if_neg hlong]
        exact ⟨rfl, by decide⟩
    · have hamount : amount shr y = .error (.overflow shr.symbol) := if_neg h
      rw [apply, hamount, error_bind]

end BinOp

/-! ## Terms -/

namespace Term

/-- The value of a term over the integers, with the given values of labels. A byte is that of the
two's complement. -/
def unbounded (value : String → Int) : Term → Int
  | number v => v
  | label name => value name
  | neg t => -t.unbounded value
  | lsb t => t.unbounded value % 2 ^ 8
  | byte index t => t.unbounded value / 2 ^ (8 * index) % 2 ^ 8
  | binary op l r => op.unbounded (l.unbounded value) (r.unbounded value)

/-- The first reason, from left to right, why a term has no value: a label without one, or an
operator that gives no result for the values of its operands. -/
def fault (labels : Labels) (t : Term) : Option ExprError :=
  match t with
  | number _ => none
  | label name => if (labels name).isSome then none else some (.unknownLabel name)
  | neg t | lsb t | byte _ t => t.fault labels
  | binary op l r =>
    let value name := (labels name).getD 0
    (l.fault labels).or ((r.fault labels).or (op.fault (l.unbounded value) (r.unbounded value)))

/-- No minus sign is applied to the least number, and no quotient or remainder of it by minus one is
taken. Only what is evaluated counts: nothing to the right of an operand without a value is. -/
def Ordinary (labels : Labels) : Term → Prop
  | number _ | label _ => True
  | neg t => t.Ordinary labels ∧ t.eval labels ≠ .ok (-2 ^ 127)
  | lsb t | byte _ t => t.Ordinary labels
  | binary op l r =>
    l.Ordinary labels ∧ ((l.eval labels).isOk = true → r.Ordinary labels) ∧
      (op = .div ∨ op = .mod → ¬ (l.eval labels = .ok (-2 ^ 127) ∧ r.eval labels = .ok (-1)))

instance decidableOrdinary (labels : Labels) : (t : Term) → Decidable (t.Ordinary labels)
  | number _ | label _ => .isTrue trivial
  | neg t =>
    have := decidableOrdinary labels t
    inferInstanceAs (Decidable (t.Ordinary labels ∧ t.eval labels ≠ .ok (-2 ^ 127)))
  | lsb t | byte _ t => decidableOrdinary labels t
  | binary op l r =>
    have := decidableOrdinary labels l
    have := decidableOrdinary labels r
    inferInstanceAs (Decidable (l.Ordinary labels ∧ (_ → r.Ordinary labels) ∧
      (op = .div ∨ op = .mod → ¬ (l.eval labels = .ok (-2 ^ 127) ∧ r.eval labels = .ok (-1)))))

variable {labels : Labels}

/-- **A term is evaluated as over the integers, or has a fault.** -/
theorem eval_agrees (hlabels : ∀ name v, labels name = some v → Number.fits v = true) {t : Term}
    (ht : t.Readable) (hordinary : t.Ordinary labels) :
    Agrees (t.eval labels) (t.fault labels) (t.unbounded fun name => (labels name).getD 0) := by
  induction t with
  | number v =>
    have hnonneg := ht.1
    exact .ok (Number.fits_iff.mpr ⟨by omega, ht.2⟩)
  | label name =>
    refine .of_ite (fun h => ?_) fun h => ?_
    · obtain ⟨v, hv⟩ := Option.isSome_iff_exists.mp h
      rw [eval, unbounded, hv]
      exact ⟨rfl, hlabels name v hv⟩
    · rw [eval, Option.not_isSome_iff_eq_none.mp h]
  | neg t ih =>
    obtain ⟨hordinary, hleast⟩ := hordinary
    refine (ih ht hordinary).bind_ok fun hresult hfits => ?_
    obtain ⟨hle, hlt⟩ := Number.fits_iff.mp hfits
    have hne : t.unbounded (fun name => (labels name).getD 0) ≠ -2 ^ 127 :=
      fun h => hleast (h ▸ hresult)
    rw [unbounded]
    exact ⟨Number.wrap_eq_self (by omega) (by omega), Number.fits_iff.mpr (by omega)⟩
  | lsb t ih =>
    refine (ih ht hordinary).bind_ok fun _ _ => ⟨?_, Number.fits_emod (by decide) (by decide)⟩
    rw [Number.byteAt_eq (by decide), Nat.mul_zero, Int.pow_zero, Int.ediv_one, unbounded]
  | byte index t ih =>
    obtain ⟨hindex, ht⟩ := ht
    refine (ih ht hordinary).bind_ok fun _ _ => ⟨?_, Number.fits_emod (by decide) (by decide)⟩
    exact Number.byteAt_eq (by omega) _
  | binary op l r ihl ihr =>
    obtain ⟨hl, hr, hlimit⟩ := hordinary
    refine (ihl ht.1 hl).bind fun hx hxfits =>
      (ihr ht.2 (hr (by rw [hx]; rfl))).bind fun hy hyfits => ?_
    refine op.apply_agrees hxfits hyfits fun hop hleast => hlimit hop ?_
    rw [hx, hy, hleast.1, hleast.2]
    exact ⟨rfl, rfl⟩

end Term

/-- **An expression has its value over the integers, or a fault.** Let the values of labels be in
the range, and let no minus sign be applied to the least number and no quotient or remainder of it
by minus one be taken. An expression that was read has the value of its term over the integers, and
an error exactly where the term has a fault: a label without a value, a division by zero, a sum,
difference or product outside the range, or a shift by a count outside that of its operator. -/
theorem eval_is_unbounded (s : String) (e : Expression) (hparse : Expression.parse s = .ok e)
    (labels : Labels) (hlabels : ∀ name v, labels name = some v → Number.fits v = true)
    (hordinary : e.term.Ordinary labels) : (∀ v, e.eval labels = .ok v ↔
      e.term.fault labels = none ∧ v = e.term.unbounded fun name => (labels name).getD 0) ∧
    ∀ err, e.eval labels = .error err ↔ e.term.fault labels = some err := by
  obtain ⟨herror, hok⟩ := Term.eval_agrees hlabels (Expression.readable_of_parse hparse) hordinary
  rw [Expression.eval]
  cases hfault : e.term.fault labels with
  | none =>
    obtain ⟨hvalue, -⟩ := hok hfault
    rw [hvalue]
    refine ⟨fun v => ?_, fun err => ?_⟩
    · rw [Except.ok.injEq, eq_comm, and_iff_right rfl]
    · simp
  | some err' =>
    rw [herror err' hfault]
    refine ⟨fun v => ?_, fun err => ?_⟩
    · simp
    · rw [Except.error.injEq, Option.some.injEq]

/-- The least number has a value where it is neither negated nor divided by minus one, and below it
there is a fault. -/
theorem eval_is_unbounded_at_limits :
    let labels : Labels :=
      fun name => if name = "least" then some (-2 ^ 127) else if name = "x" then some 127 else none
    (∃ e, Expression.parse "(least | 5) / -2 % 7 << x" = .ok e ∧ e.term.Ordinary labels ∧
      e.eval labels = .ok (e.term.unbounded fun name => (labels name).getD 0)) ∧
    ∃ e, Expression.parse "BYTE9(x) + -(least - x)" = .ok e ∧ e.term.Ordinary labels ∧
      e.eval labels = .error (.overflow "-") := by
  intro labels
  have hlabels (name : String) (v : Int) (h : labels name = some v) : Number.fits v = true := by
    unfold labels at h
    split at h
    · cases h
      decide
    · split at h
      · cases h
        decide
      · cases h
  constructor
  · let e : Expression :=
      { text := "(least | 5) / -2 % 7 << x",
        term := .binary .shl
          (.binary .mod
            (.binary .div (.binary .or (.label "least") (.number 5)) (.neg (.number 2)))
            (.number 7))
          (.label "x") }
    have hparse : Expression.parse "(least | 5) / -2 % 7 << x" = .ok e := by decide +kernel
    have hordinary : e.term.Ordinary labels := by decide +kernel
    obtain ⟨hok, -⟩ := eval_is_unbounded _ e hparse labels hlabels hordinary
    exact ⟨e, hparse, hordinary, (hok _).mpr ⟨by decide +kernel, rfl⟩⟩
  · let e : Expression :=
      { text := "BYTE9(x) + -(least - x)",
        term := .binary .add (.byte 9 (.label "x"))
          (.neg (.binary .sub (.label "least") (.label "x"))) }
    have hparse : Expression.parse "BYTE9(x) + -(least - x)" = .ok e := by decide +kernel
    have hordinary : e.term.Ordinary labels := by decide +kernel
    obtain ⟨-, herror⟩ := eval_is_unbounded _ e hparse labels hlabels hordinary
    exact ⟨e, hparse, hordinary, (herror _).mpr (by decide +kernel)⟩

/-- **A negative number that is shifted far to the right gives zero,** and not minus one. -/
theorem long_shift_of_negative :
    ∃ e, Expression.parse "-1 >> 128" = .ok e ∧
      e.term = .binary .shr (.neg (.number 1)) (.number 128) ∧
      e.term.Ordinary (fun _ => none) ∧ e.eval (fun _ => none) = .ok 0 ∧
        (-1 : Int) / 2 ^ 128 = -1 := by
  exact ⟨⟨"-1 >> 128", .binary .shr (.neg (.number 1)) (.number 128)⟩, by decide +kernel, rfl,
    by decide +kernel, rfl, by decide⟩

end Retarget
