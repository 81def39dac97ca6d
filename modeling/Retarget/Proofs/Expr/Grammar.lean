import Retarget.Expr.Parser
import Retarget.Proofs.Result

/-!
# The grammar of expressions

    expr      ::= shiftexpr [("&" | "|" | "^") shiftexpr]*
    shiftexpr ::= addexpr [("<<" | ">>") addexpr]*
    addexpr   ::= mulexpr [("+" | "-") mulexpr]*
    mulexpr   ::= unary [("*" | "/" | "%") unary]*
    unary     ::= "-" unary | atom
    atom      ::= number | label | "LSB(" expr ")" | "BYTEn(" expr ")" | "(" expr ")"

A parse tree is a derivation in this grammar. It has a list of tokens and a term, in which the
operators of a level are taken from left to right.

* `ParseTree.readLevel_tokens`: the reader of a level finds the term of a tree, and what follows the
  tree;
* `Term.exists_tree_of_readLevel`: what the reader takes are the tokens of a tree;
* `ParseTree.eq_of_tokens`: tokens are those of one tree only.
-/

namespace Retarget

/-! ## Parse trees -/

/-- The operators between the operands of a level: 1 is `mulexpr`, 2 `addexpr`, 3 `shiftexpr` and 4
`expr`. -/
def BinOp.onLevel : Nat → List BinOp
  | 1 => [mul, div, mod]
  | 2 => [add, sub]
  | 3 => [shl, shr]
  | 4 => [and, or, xor]
  | _ => []

theorem BinOp.mem_onLevel {op : BinOp} {n : Nat} : op ∈ onLevel n ↔ op.level = n := by
  match n with
  | 0 | 1 | 2 | 3 | 4 => cases op <;> decide
  | n + 5 => cases op <;> simp [onLevel, level]

/-- What an atom with parentheses begins with. -/
inductive Opening
  | paren
  | lsb
  | byte (index : Nat)

namespace Opening

/-- The token of an opening. -/
def token : Opening → Token
  | paren => .open
  | lsb => .lsb
  | byte index => .byte index

/-- The term of the atom around that of its inside. -/
def wrap : Opening → Term → Term
  | paren, t => t
  | lsb, t => .lsb t
  | byte index, t => .byte index t

theorem token_injective {o o' : Opening} (h : o.token = o'.token) : o = o' := by
  cases o <;> cases o' <;> simp_all [token]

end Opening

mutual

/-- Derivations from a nonterminal of the grammar: 0 is `unary`, the others are the levels of
operators. -/
inductive ParseTree : Nat → Type
  | number (text : String) (value : Int) : ParseTree 0
  | label (name : String) : ParseTree 0
  | closed (opening : Opening) (inner : ParseTree 4) : ParseTree 0
  | neg (operand : ParseTree 0) : ParseTree 0
  /-- Operands of a level are joined by the operators of the next one. -/
  | joined {n : Nat} (first : ParseTree n) (more : ParseTail n) : ParseTree (n + 1)

/-- What follows the first of the operands: any number of operators, each with its operand. -/
inductive ParseTail : Nat → Type
  | done {n : Nat} : ParseTail n
  | step {n : Nat} (op : BinOp) (mem : op ∈ BinOp.onLevel (n + 1)) (operand : ParseTree n)
      (more : ParseTail n) : ParseTail n

end

mutual

/-- The tokens of a tree. -/
def ParseTree.tokens : {n : Nat} → ParseTree n → List Token
  | _, .number text value => [.number text value]
  | _, .label name => [.label name]
  | _, .closed opening inner => opening.token :: (inner.tokens ++ [.close])
  | _, .neg operand => .op .sub :: operand.tokens
  | _, .joined first more => first.tokens ++ more.tokens

/-- The tokens after the first operand. -/
def ParseTail.tokens : {n : Nat} → ParseTail n → List Token
  | _, .done => []
  | _, .step op _ operand more => .op op :: (operand.tokens ++ more.tokens)

end

mutual

/-- The term of a tree. -/
def ParseTree.term : {n : Nat} → ParseTree n → Term
  | _, .number _ value => .number value
  | _, .label name => .label name
  | _, .closed opening inner => opening.wrap inner.term
  | _, .neg operand => .neg operand.term
  | _, .joined first more => more.extend first.term

/-- The term that goes on after `left`: each operator takes all that stands to its left. -/
def ParseTail.extend (left : Term) : {n : Nat} → ParseTail n → Term
  | _, .done => left
  | _, .step op _ operand more => more.extend (.binary op left operand.term)

end

attribute [simp] ParseTree.tokens ParseTail.tokens ParseTree.term ParseTail.extend

/-! ## Readers without their bounds -/

namespace Term

/-- What a reader gives, without the proof that it leaves less. -/
def plain {p : List Token → Prop} (r : Except ExprError (Term × { rest // p rest })) :
    Except ExprError (Term × List Token) :=
  r.map fun x => (x.1, x.2.1)

theorem plain_eq_ok {p : List Token → Prop} {r : Except ExprError (Term × { rest // p rest })}
    {t : Term} {rest : List Token} :
    plain r = .ok (t, rest) ↔ ∃ h : p rest, r = .ok (t, ⟨rest, h⟩) := by
  rw [plain, map_eq_ok]
  constructor
  · rintro ⟨⟨t', rest', h⟩, hr, heq⟩
    cases heq
    exact ⟨h, hr⟩
  · rintro ⟨h, hr⟩
    exact ⟨(t, ⟨rest, h⟩), hr, rfl⟩

/-- Going on after a reader needs no bound. -/
theorem plain_bind {p q : List Token → Prop} {r : Except ExprError (Term × { rest // p rest })}
    {f : Term × { rest // p rest } → Except ExprError (Term × { rest // q rest })}
    {g : Term × List Token → Except ExprError (Term × List Token)}
    (h : ∀ t rest hrest, plain (f (t, ⟨rest, hrest⟩)) = g (t, rest)) :
    plain (r >>= f) = plain r >>= g := by
  cases r with
  | error e => rfl
  | ok x => exact h x.1 x.2.1 x.2.2

theorem plain_readLevel_zero (ts : List Token) : plain (readLevel 0 ts) = plain (readUnary ts) := by
  rw [readLevel]

theorem plain_readLevel_succ (n : Nat) (ts : List Token) :
    plain (readLevel (n + 1) ts) =
      plain (readLevel n ts) >>= fun x => plain (readChain n x.1 x.2) := by
  rw [readLevel]
  refine plain_bind fun left rest _ => ?_
  dsimp only
  cases readChain n left rest <;> rfl

theorem plain_readChain_nil (n : Nat) (left : Term) :
    plain (readChain n left []) = .ok (left, []) := by
  rw [readChain]
  rfl

theorem plain_readChain_cons (n : Nat) (left : Term) (t : Token) (ts : List Token) :
    plain (readChain n left (t :: ts)) =
      match operatorAt (n + 1) t with
      | none => .ok (left, t :: ts)
      | some op =>
        plain (readLevel n ts) >>= fun x => plain (readChain n (.binary op left x.1) x.2) := by
  rw [readChain]
  cases operatorAt (n + 1) t with
  | none => rfl
  | some op =>
    refine plain_bind fun right rest _ => ?_
    dsimp only
    cases readChain n (.binary op left right) rest <;> rfl

theorem plain_readClosed (ts : List Token) :
    plain (readClosed ts) =
      plain (readLevel 4 ts) >>= fun x =>
        match x.2 with
        | .close :: more => .ok (x.1, more)
        | _ => .error .unclosedParen := by
  rw [readClosed]
  refine plain_bind fun inner rest _ => ?_
  cases rest with
  | nil => rfl
  | cons t more => cases t <;> rfl

theorem plain_readUnary_neg (ts : List Token) :
    plain (readUnary (.op .sub :: ts)) = plain (readUnary ts) >>= fun x => .ok (.neg x.1, x.2) := by
  rw [readUnary]
  exact plain_bind fun _ _ _ => rfl

theorem plain_readUnary_opening (o : Opening) (ts : List Token) :
    plain (readUnary (o.token :: ts)) = plain (readClosed ts) >>= fun x =>
      .ok (o.wrap x.1, x.2) := by
  cases o <;> rw [Opening.token, readUnary] <;> exact plain_bind fun _ _ _ => rfl

theorem plain_readUnary_number (text : String) (v : Int) (ts : List Token) :
    plain (readUnary (.number text v :: ts)) = .ok (.number v, ts) := by
  rw [readUnary]
  rfl

theorem plain_readUnary_label (name : String) (ts : List Token) :
    plain (readUnary (.label name :: ts)) = .ok (.label name, ts) := by
  rw [readUnary]
  rfl

theorem operatorAt_eq_some {n : Nat} {t : Token} {op : BinOp} :
    operatorAt n t = some op ↔ t = .op op ∧ op ∈ BinOp.onLevel n := by
  rw [BinOp.mem_onLevel]
  cases t with
  | op operator =>
    rw [operatorAt, Option.ite_none_right_eq_some, Option.some.injEq, Token.op.injEq]
    constructor
    · rintro ⟨hlevel, rfl⟩
      exact ⟨rfl, hlevel⟩
    · rintro ⟨rfl, hlevel⟩
      exact ⟨hlevel, rfl⟩
  | _ => simp [operatorAt]

/-! ## What is read is a tree -/

mutual

/-- What the reader of a level takes are the tokens of a tree. The induction is that of the
readers. -/
theorem exists_tree_of_readLevel {n : Nat} {ts rest : List Token} {t : Term}
    (h : plain (readLevel n ts) = .ok (t, rest)) :
    ∃ d : ParseTree n, d.tokens ++ rest = ts ∧ d.term = t := by
  cases n with
  | zero =>
    rw [plain_readLevel_zero] at h
    exact exists_tree_of_readUnary h
  | succ n =>
    rw [plain_readLevel_succ] at h
    obtain ⟨⟨left, more⟩, hleft, hmore⟩ := bind_eq_ok.mp h
    obtain ⟨hlt, -⟩ := plain_eq_ok.mp hleft
    obtain ⟨d, hd, rfl⟩ := exists_tree_of_readLevel hleft
    obtain ⟨tail, htail, rfl⟩ := exists_tail_of_readChain hmore
    refine ⟨.joined d tail, ?_, rfl⟩
    rw [ParseTree.tokens, List.append_assoc, htail, hd]
termination_by (ts.length, n + 1)

theorem exists_tail_of_readChain {n : Nat} {left : Term} {ts rest : List Token} {t : Term}
    (h : plain (readChain n left ts) = .ok (t, rest)) :
    ∃ d : ParseTail n, d.tokens ++ rest = ts ∧ d.extend left = t := by
  cases ts with
  | nil =>
    rw [plain_readChain_nil] at h
    cases h
    exact ⟨.done, rfl, rfl⟩
  | cons first ts =>
    rw [plain_readChain_cons] at h
    cases hop : operatorAt (n + 1) first with
    | none =>
      rw [hop] at h
      cases h
      exact ⟨.done, rfl, rfl⟩
    | some op =>
      rw [hop] at h
      obtain ⟨⟨right, more⟩, hright, hmore⟩ := bind_eq_ok.mp h
      obtain ⟨hlt, -⟩ := plain_eq_ok.mp hright
      obtain ⟨rfl, hmem⟩ := operatorAt_eq_some.mp hop
      obtain ⟨d, hd, rfl⟩ := exists_tree_of_readLevel hright
      obtain ⟨tail, htail, rfl⟩ := exists_tail_of_readChain hmore
      refine ⟨.step op hmem d tail, ?_, rfl⟩
      rw [ParseTail.tokens, List.cons_append, List.append_assoc, htail, hd]
termination_by (ts.length, 0)

theorem exists_tree_of_readUnary {ts rest : List Token} {t : Term}
    (h : plain (readUnary ts) = .ok (t, rest)) :
    ∃ d : ParseTree 0, d.tokens ++ rest = ts ∧ d.term = t := by
  -- Atoms with parentheses are read alike.
  have hclosed (o : Opening) (ts' : List Token) (heq : ts = o.token :: ts') :
      ∃ d : ParseTree 0, d.tokens ++ rest = ts ∧ d.term = t := by
    subst heq
    rw [plain_readUnary_opening] at h
    obtain ⟨⟨inner, more⟩, hinner, heq⟩ := bind_eq_ok.mp h
    cases heq
    obtain ⟨d, hd, rfl⟩ := exists_tree_of_readClosed hinner
    refine ⟨.closed o d, ?_, rfl⟩
    rw [ParseTree.tokens, List.cons_append, List.append_assoc, List.singleton_append, hd]
  cases ts with
  | nil => simp [readUnary, plain, Except.map] at h
  | cons first ts =>
    cases first with
    | number text v =>
      rw [plain_readUnary_number] at h
      cases h
      exact ⟨.number text v, rfl, rfl⟩
    | label name =>
      rw [plain_readUnary_label] at h
      cases h
      exact ⟨.label name, rfl, rfl⟩
    | «open» => exact hclosed .paren ts rfl
    | lsb => exact hclosed .lsb ts rfl
    | byte index => exact hclosed (.byte index) ts rfl
    | close => simp [readUnary, plain, Except.map] at h
    | op operator =>
      cases operator with
      | sub =>
        rw [plain_readUnary_neg] at h
        obtain ⟨⟨operand, more⟩, hoperand, heq⟩ := bind_eq_ok.mp h
        cases heq
        obtain ⟨d, hd, rfl⟩ := exists_tree_of_readUnary hoperand
        refine ⟨.neg d, ?_, rfl⟩
        rw [ParseTree.tokens, List.cons_append, hd]
      | _ => simp [readUnary, plain, Except.map] at h
termination_by (ts.length, 0)

theorem exists_tree_of_readClosed {ts rest : List Token} {t : Term}
    (h : plain (readClosed ts) = .ok (t, rest)) :
    ∃ d : ParseTree 4, d.tokens ++ .close :: rest = ts ∧ d.term = t := by
  rw [plain_readClosed] at h
  obtain ⟨⟨inner, more⟩, hinner, h⟩ := bind_eq_ok.mp h
  split at h
  · rename_i more' hmore
    cases h
    obtain ⟨d, hd, rfl⟩ := exists_tree_of_readLevel hinner
    dsimp only at hmore
    exact ⟨d, hmore ▸ hd, rfl⟩
  · cases h
termination_by (ts.length, 6)

end

end Term

/-! ## Trees are read -/

/-- No operator of level `n` or tighter comes next, so that an operand of level `n` ends here. -/
def Stops (n : Nat) : List Token → Prop
  | .op op :: _ => n < op.level
  | _ => True

namespace Stops

variable {n : Nat} {rest : List Token}

theorem zero : Stops 0 rest := by
  match rest with
  | .op op :: _ => cases op <;> simp [Stops, BinOp.level]
  | [] | .number .. :: _ | .label _ :: _ | .open :: _ | .close :: _ | .lsb :: _ | .byte _ :: _ =>
    trivial

theorem nil : Stops n [] := trivial

theorem close : Stops n (.close :: rest) := trivial

theorem of_succ (h : Stops (n + 1) rest) : Stops n rest := by
  unfold Stops at *
  split at h
  · exact Nat.lt_of_succ_lt h
  · trivial

/-- After an operand of a level its operators may come. -/
theorem tail (tail : ParseTail n) (h : Stops (n + 1) rest) : Stops n (tail.tokens ++ rest) := by
  cases tail with
  | done => exact h.of_succ
  | step op mem operand more =>
    show n < op.level
    rw [BinOp.mem_onLevel.mp mem]
    exact Nat.lt_succ_self n

/-- No operator of the level is read where its operands end. -/
theorem readChain_eq (h : Stops (n + 1) rest) (left : Term) :
    Term.plain (Term.readChain n left rest) = .ok (left, rest) := by
  cases rest with
  | nil => exact Term.plain_readChain_nil n left
  | cons t rest =>
    rw [Term.plain_readChain_cons]
    cases hop : Term.operatorAt (n + 1) t with
    | none => rfl
    | some op =>
      obtain ⟨rfl, hmem⟩ := Term.operatorAt_eq_some.mp hop
      have hlevel : n + 1 < op.level := h
      rw [BinOp.mem_onLevel.mp hmem] at hlevel
      exact absurd hlevel (Nat.lt_irrefl _)

end Stops

mutual

/-- The reader of a level finds the term of a tree, whatever follows it that cannot belong to it. -/
theorem ParseTree.readLevel_tokens {n : Nat} (d : ParseTree n) {rest : List Token}
    (h : Stops n rest) : Term.plain (Term.readLevel n (d.tokens ++ rest)) = .ok (d.term, rest) := by
  match n, d with
  | _, .number text value =>
    rw [Term.plain_readLevel_zero]
    exact Term.plain_readUnary_number text value rest
  | _, .label name =>
    rw [Term.plain_readLevel_zero]
    exact Term.plain_readUnary_label name rest
  | _, .closed opening inner =>
    have hinner := inner.readLevel_tokens (.close : Stops 4 (.close :: rest))
    rw [ParseTree.tokens, List.cons_append, List.append_assoc, Term.plain_readLevel_zero,
      Term.plain_readUnary_opening, Term.plain_readClosed, List.singleton_append, hinner]
    rfl
  | _, .neg operand =>
    have hoperand := operand.readLevel_tokens (.zero : Stops 0 rest)
    rw [Term.plain_readLevel_zero] at hoperand ⊢
    rw [ParseTree.tokens, List.cons_append, Term.plain_readUnary_neg, hoperand]
    rfl
  | _, .joined first more =>
    have hfirst := first.readLevel_tokens (h.tail more)
    have hmore := more.readChain_tokens first.term h
    rw [ParseTree.tokens, List.append_assoc, Term.plain_readLevel_succ, hfirst]
    exact hmore

theorem ParseTail.readChain_tokens {n : Nat} (d : ParseTail n) (left : Term) {rest : List Token}
    (h : Stops (n + 1) rest) :
    Term.plain (Term.readChain n left (d.tokens ++ rest)) = .ok (d.extend left, rest) := by
  match d with
  | .done => exact h.readChain_eq left
  | .step op mem operand more =>
    have hoperand := operand.readLevel_tokens (h.tail more)
    have hmore := more.readChain_tokens (.binary op left operand.term) h
    have hop : Term.operatorAt (n + 1) (.op op) = some op := Term.operatorAt_eq_some.mpr ⟨rfl, mem⟩
    rw [ParseTail.tokens, List.cons_append, List.append_assoc, Term.plain_readChain_cons, hop]
    dsimp only
    rw [hoperand]
    exact hmore

end

/-! ## There is one tree -/

mutual

/-- Tokens are those of one tree only, also when something follows them. -/
theorem ParseTree.eq_of_tokens {n : Nat} (d d' : ParseTree n) {rest rest' : List Token}
    (h : Stops n rest) (h' : Stops n rest') (heq : d.tokens ++ rest = d'.tokens ++ rest') :
    d = d' ∧ rest = rest' := by
  match n, d with
  | _, .number text value =>
    cases d' with
    | number => simp_all
    | closed opening => cases opening <;> simp [Opening.token] at heq
    | _ => simp at heq
  | _, .label name =>
    cases d' with
    | label => simp_all
    | closed opening => cases opening <;> simp [Opening.token] at heq
    | _ => simp at heq
  | _, .closed opening inner =>
    cases d' with
    | closed opening' inner' =>
      simp only [ParseTree.tokens, List.cons_append, List.append_assoc, List.cons.injEq] at heq
      obtain ⟨hinner, hrest⟩ := inner.eq_of_tokens inner' .close .close heq.2
      rw [Opening.token_injective heq.1, hinner]
      exact ⟨rfl, (List.cons.inj hrest).2⟩
    | _ => cases opening <;> simp [Opening.token] at heq
  | _, .neg operand =>
    cases d' with
    | neg operand' =>
      obtain ⟨rfl, hrest⟩ := operand.eq_of_tokens operand' .zero .zero (List.cons.inj heq).2
      exact ⟨rfl, hrest⟩
    | closed opening => cases opening <;> simp [Opening.token] at heq
    | _ => simp at heq
  | _, .joined first more =>
    cases d' with
    | joined first' more' =>
      rw [ParseTree.tokens, ParseTree.tokens, List.append_assoc, List.append_assoc] at heq
      obtain ⟨rfl, hmore⟩ := first.eq_of_tokens first' (h.tail more) (h'.tail more') heq
      obtain ⟨rfl, hrest⟩ := more.eq_of_tokens more' h h' hmore
      exact ⟨rfl, hrest⟩

theorem ParseTail.eq_of_tokens {n : Nat} (d d' : ParseTail n) {rest rest' : List Token}
    (h : Stops (n + 1) rest) (h' : Stops (n + 1) rest')
    (heq : d.tokens ++ rest = d'.tokens ++ rest') : d = d' ∧ rest = rest' := by
  match d with
  | .done =>
    cases d' with
    | done => exact ⟨rfl, heq⟩
    | step op mem operand more =>
      cases heq
      exact absurd (BinOp.mem_onLevel.mp mem) (Nat.ne_of_gt h)
  | .step op mem operand more =>
    cases d' with
    | done =>
      cases heq
      exact absurd (BinOp.mem_onLevel.mp mem) (Nat.ne_of_gt h')
    | step op' mem' operand' more' =>
      simp only [ParseTail.tokens, List.cons_append, List.append_assoc, List.cons.injEq,
        Token.op.injEq] at heq
      obtain ⟨rfl, heq⟩ := heq
      obtain ⟨rfl, hmore⟩ := operand.eq_of_tokens operand' (h.tail more) (h'.tail more') heq
      obtain ⟨rfl, hrest⟩ := more.eq_of_tokens more' h h' hmore
      exact ⟨rfl, hrest⟩

end

/-! ## Whole expressions -/

/-- A token list is read exactly if it is that of a tree, and then as the term of the tree. -/
theorem Term.ofTokens_eq_ok {text : String} {ts : List Token} {t : Term} :
    ofTokens text ts = .ok t ↔ ∃ d : ParseTree 4, d.tokens = ts ∧ d.term = t := by
  have hread : ofTokens text ts = .ok t ↔ plain (readLevel 4 ts) = .ok (t, []) := by
    rw [ofTokens, bind_eq_ok, plain_eq_ok]
    constructor
    · rintro ⟨⟨term, rest, h⟩, hr, heq⟩
      cases rest with
      | nil =>
        cases heq
        exact ⟨h, hr⟩
      | cons first rest => cases heq
    · rintro ⟨h, hr⟩
      exact ⟨_, hr, rfl⟩
  rw [hread]
  constructor
  · intro h
    obtain ⟨d, hd, hterm⟩ := exists_tree_of_readLevel h
    exact ⟨d, by rw [← hd, List.append_nil], hterm⟩
  · rintro ⟨d, rfl, rfl⟩
    have hd := d.readLevel_tokens (.nil : Stops 4 [])
    rwa [List.append_nil] at hd

/-- An expression is a text whose tokens have a tree. -/
theorem Expression.parse_eq_ok {s : String} {e : Expression} : parse s = .ok e ↔
    ∃ d : ParseTree 4, Token.scan s.toList = .ok d.tokens ∧
      e = { text := Text.strip s, term := d.term } := by
  rw [parse, bind_eq_ok]
  constructor
  · rintro ⟨ts, hscan, h⟩
    obtain ⟨term, hterm, h⟩ := bind_eq_ok.mp h
    obtain ⟨d, rfl, rfl⟩ := Term.ofTokens_eq_ok.mp hterm
    exact ⟨d, hscan, (Except.ok.inj h).symm⟩
  · rintro ⟨d, hscan, rfl⟩
    exact ⟨d.tokens, hscan, bind_eq_ok.mpr ⟨d.term, Term.ofTokens_eq_ok.mpr ⟨d, rfl, rfl⟩, rfl⟩⟩

/-- **The reader accepts the grammar, and its trees are those of the grammar.** A token list is read
exactly if it has a parse tree. It then has only one, and is read as the term of this tree: the
operators of a level are taken from left to right, and a minus sign belongs to the operand after it.
An expression is read as the tokens of its text are. -/
theorem ofTokens_iff_parseTree (ts : List Token) :
    (∀ text t, Term.ofTokens text ts = .ok t ↔ ∃ d : ParseTree 4, d.tokens = ts ∧ d.term = t) ∧
    (∀ d d' : ParseTree 4, d.tokens = ts → d'.tokens = ts → d = d') ∧
    ∀ s : String, Token.scan s.toList = .ok ts → ∀ e, Expression.parse s = .ok e ↔
      ∃ d : ParseTree 4, d.tokens = ts ∧ e = { text := Text.strip s, term := d.term } := by
  refine ⟨fun text t => Term.ofTokens_eq_ok, fun d d' hd hd' => ?_, fun s hs e => ?_⟩
  · exact (d.eq_of_tokens d' .nil .nil (by rw [hd, hd'])).1
  · rw [Expression.parse, hs, ok_bind, bind_eq_ok]
    constructor
    · rintro ⟨t, ht, he⟩
      obtain ⟨d, hd, rfl⟩ := Term.ofTokens_eq_ok.mp ht
      exact ⟨d, hd, (Except.ok.inj he).symm⟩
    · rintro ⟨d, hd, rfl⟩
      exact ⟨d.term, Term.ofTokens_eq_ok.mpr ⟨d, hd, rfl⟩, rfl⟩

/-- Differences are taken from left to right, and a sign is taken before a product. -/
theorem ofTokens_iff_parseTree_minus :
    let ts : List Token :=
      [.number "8" 8, .op .sub, .number "4" 4, .op .sub, .op .sub, .label "x", .op .mul,
        .number "2" 2]
    (∃ d : ParseTree 4, d.tokens = ts ∧ d.term =
      .binary .sub (.binary .sub (.number 8) (.number 4))
        (.binary .mul (.neg (.label "x")) (.number 2))) ∧
    ∀ d d' : ParseTree 4, d.tokens = ts → d'.tokens = ts → d = d' := by
  intro ts
  obtain ⟨hread, hunique, -⟩ := ofTokens_iff_parseTree ts
  exact ⟨(hread "" _).mp (by decide +kernel), hunique⟩

end Retarget
