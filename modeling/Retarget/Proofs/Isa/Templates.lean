import Retarget.Isa.Encode
import Retarget.Proofs.Expr.Numeral

/-!
# Templates of macros

A template is text with places for the operands of the macro, such as `@OP(1)`. The places are
filled operand by operand, each time in the text that the operands before have left. Every place
begins with a mark that neither the text around it nor an operand has, so this is the same as
filling all places at once.

* `Text.replace_append`, `Text.replace_pattern`: a pattern is found only where its first character
  stands;
* `Piece`: literal text and places; `Piece.written_isPrefix_iff`: no place is written like the
  beginning of another;
* `Piece.occursIn_textOf`, `Piece.replace_textOf`: finding and replacing in a text is done among its
  pieces;
* `ActsAs`: what is done with a text is done with its pieces; `ActsAs.fillFrom`: filling all places
  is of this kind;
* `Piece.fillFrom_place`: what becomes of one place.
-/

namespace Retarget

namespace Text

variable {mark : Char} {body value cs : List Char}

/-! ## Patterns that begin with a mark -/

theorem not_isPrefixOf_cons {c : Char} (hc : ¬ mark = c) :
    (mark :: body).isPrefixOf (c :: cs) = false := by
  simp [List.isPrefixOf, hc]

/-- A text without the mark stays as it is. -/
theorem replace_append (hcs : mark ∉ cs) (rest : List Char) :
    replace (mark :: body) value (cs ++ rest) = cs ++ replace (mark :: body) value rest := by
  induction cs with
  | nil => rfl
  | cons c cs ih =>
    obtain ⟨hc, hcs⟩ := not_or.mp (mt List.mem_cons.mpr hcs)
    rw [List.cons_append, replace, replaceFrom, not_isPrefixOf_cons hc, if_neg Bool.false_ne_true]
    exact congrArg (c :: ·) (ih hcs)

theorem replaceFrom_skip (pattern value cs rest : List Char) :
    replaceFrom pattern value cs.length (cs ++ rest) = replace pattern value rest := by
  induction cs with
  | nil => rfl
  | cons c cs ih =>
    rw [List.cons_append, List.length_cons, replaceFrom]
    exact ih

theorem replace_pattern (rest : List Char) :
    replace (mark :: body) value (mark :: body ++ rest) =
        value ++ replace (mark :: body) value rest := by
  have hfound : (mark :: body).isPrefixOf (mark :: (body ++ rest)) = true := by
    rw [List.isPrefixOf_iff_prefix]
    exact List.prefix_append _ _
  rw [List.cons_append, replace, replaceFrom, if_pos hfound, List.length_cons, Nat.add_sub_cancel,
    replaceFrom_skip]

/-- No pattern is found in a text without the mark. -/
theorem occursIn_append (hcs : mark ∉ cs) (rest : List Char) :
    occursIn (mark :: body) (cs ++ rest) = occursIn (mark :: body) rest := by
  induction cs with
  | nil => rfl
  | cons c cs ih =>
    obtain ⟨hc, hcs⟩ := not_or.mp (mt List.mem_cons.mpr hcs)
    rw [List.cons_append, occursIn, not_isPrefixOf_cons hc, Bool.false_or, ih hcs]

end Text

/-! ## Pieces -/

/-- What a place in a template asks for. -/
inductive PlaceKind
  | argument | register | text
  deriving DecidableEq, Repr

namespace PlaceKind

/-- How places of a kind begin. -/
def tag : PlaceKind → String
  | argument => "@ARG"
  | register => "@REG"
  | text => "@OP"

/-- What an operand has for a place. -/
def text? (o : MatchedOperand) : PlaceKind → Option String
  | argument => o.argumentText?
  | register => o.register
  | text => some o.text

theorem exists_toList_tag (kind : PlaceKind) :
    ∃ letters, kind.tag.toList = '@' :: letters ∧ '@' ∉ letters := by
  cases kind with
  | argument => exact ⟨['A', 'R', 'G'], rfl, by decide⟩
  | register => exact ⟨['R', 'E', 'G'], rfl, by decide⟩
  | text => exact ⟨['O', 'P'], rfl, by decide⟩

end PlaceKind

/-- A piece of a template. -/
inductive Piece
  | literal (cs : List Char)
  /-- A place for operand `n`. -/
  | place (kind : PlaceKind) (n : Nat)
  deriving DecidableEq, Repr

namespace Piece

/-- How a piece is written. -/
def written : Piece → List Char
  | literal cs => cs
  | place kind n => s!"{kind.tag}({n})".toList

/-- Literal text does not have the mark of places. -/
def Unmarked : Piece → Prop
  | literal cs => '@' ∉ cs
  | place _ _ => True

instance : DecidablePred Unmarked
  | literal cs => inferInstanceAs (Decidable ('@' ∉ cs))
  | place _ _ => inferInstanceAs (Decidable True)

theorem written_place (kind : PlaceKind) (n : Nat) :
    (place kind n).written = kind.tag.toList ++ '(' :: (Nat.toDigits 10 n ++ [')']) := by
  simp only [written, toString, String.toList_append, Nat.toList_repr, List.append_assoc]
  rfl

/-- A place begins with the mark, which stands nowhere else in it. -/
theorem exists_written_place (kind : PlaceKind) (n : Nat) :
    ∃ body, (place kind n).written = '@' :: body ∧ '@' ∉ body := by
  obtain ⟨letters, hletters, hmark⟩ := kind.exists_toList_tag
  have hdigits : '@' ∉ Nat.toDigits 10 n := fun h =>
    absurd ((Text.Spells.toDigits n).isDigit_eq '@' h) (by decide)
  rw [written_place, hletters]
  exact ⟨_, rfl, by simp [hmark, hdigits]⟩

/-- Places of different kinds differ right after the mark. -/
theorem tag_isPrefix_iff {kind k : PlaceKind} {n : Nat} {rest : List Char} :
    kind.tag.toList <+: (place k n).written ++ rest ↔ kind = k := by
  rw [written_place, List.append_assoc]
  constructor
  · intro h
    cases kind <;> cases k
      <;> first | rfl | cases (List.cons_prefix_cons.mp (List.cons_prefix_cons.mp h).2).1
  · rintro rfl
    exact List.prefix_append _ _

/-- No place is written like the beginning of another: the bracket tells where its number ends. -/
theorem written_isPrefix_iff {kind k : PlaceKind} {n m : Nat} {rest : List Char} :
    (place kind n).written <+: (place k m).written ++ rest ↔ place kind n = place k m := by
  constructor
  · intro h
    have hkind : kind = k := by
      rw [written_place] at h
      exact tag_isPrefix_iff.mp ((List.prefix_append _ _).trans h)
    subst hkind
    rw [written_place, written_place, List.append_assoc, List.prefix_append_right_inj,
      List.cons_append, List.cons_prefix_cons, List.append_assoc] at h
    obtain ⟨more, hmore⟩ := h.2
    rw [List.append_assoc] at hmore
    have hends (cs : List Char) : ∀ c ∈ ([')'] ++ cs).head?, Text.isDigit c = false := by
      rintro c ⟨⟩
      decide
    have hn := (Text.takeWhile_append_of_ends (Text.Spells.toDigits n).isDigit_eq (hends more)).1
    have hm := (Text.takeWhile_append_of_ends (Text.Spells.toDigits m).isDigit_eq (hends rest)).1
    rw [hmore, hm] at hn
    have hread := (Text.Spells.toDigits m).readNat_eq (by decide)
    rw [hn, (Text.Spells.toDigits n).readNat_eq (by decide)] at hread
    rw [Option.some.inj hread]
  · intro h
    rw [h]
    exact List.prefix_append _ _

/-! ## Places in a text -/

/-- The text of a template. -/
def textOf (pieces : List Piece) : List Char := pieces.flatMap written

theorem textOf_cons (p : Piece) (pieces : List Piece) :
    textOf (p :: pieces) = p.written ++ textOf pieces := rfl

variable {body value : List Char} {pieces : List Piece} {kind : PlaceKind} {n : Nat}

/-- A pattern that begins with the mark is found at the places that begin with it. -/
theorem occursIn_textOf (hpieces : ∀ p ∈ pieces, p.Unmarked) (found : PlaceKind → Nat → Prop)
    (hfound : ∀ k m rest, '@' :: body <+: (place k m).written ++ rest ↔ found k m) :
    Text.occursIn ('@' :: body) (textOf pieces) = true ↔ ∃ k m, place k m ∈ pieces ∧ found k m := by
  induction pieces with
  | nil => simp [textOf, Text.occursIn]
  | cons p pieces ih =>
    obtain ⟨hp, hrest⟩ := List.forall_mem_cons.mp hpieces
    rw [textOf_cons]
    cases p with
    | literal cs =>
      rw [written, Text.occursIn_append hp, ih hrest]
      simp
    | place k m =>
      obtain ⟨more, hmore, hmark⟩ := exists_written_place k m
      have hhere := hfound k m (textOf pieces)
      rw [hmore, List.cons_append] at hhere
      rw [hmore, List.cons_append, Text.occursIn, Bool.or_eq_true,
        List.isPrefixOf_iff_prefix, hhere, Text.occursIn_append hmark, ih hrest]
      simp only [List.mem_cons, place.injEq, or_and_right, exists_or]
      refine or_congr_left ⟨fun h => ⟨k, m, ⟨rfl, rfl⟩, h⟩, ?_⟩
      rintro ⟨_, _, ⟨rfl, rfl⟩, h⟩
      exact h

/-- A place is found if it is one of the pieces. -/
theorem occursIn_place (hpieces : ∀ p ∈ pieces, p.Unmarked) :
    Text.occursIn (place kind n).written (textOf pieces) = true ↔ place kind n ∈ pieces := by
  obtain ⟨body, hbody, -⟩ := exists_written_place kind n
  have hfound (k : PlaceKind) (m : Nat) (rest : List Char) :
      '@' :: body <+: (place k m).written ++ rest ↔ place kind n = place k m := by
    rw [← hbody, written_isPrefix_iff]
  rw [hbody, occursIn_textOf hpieces _ hfound]
  constructor
  · rintro ⟨k, m, hmem, heq⟩
    rwa [heq]
  · intro hmem
    exact ⟨kind, n, hmem, rfl⟩

/-- A tag is found if there is a place of its kind. -/
theorem occursIn_tag (hpieces : ∀ p ∈ pieces, p.Unmarked) :
    Text.occursIn kind.tag.toList (textOf pieces) = true ↔ ∃ n, place kind n ∈ pieces := by
  obtain ⟨letters, hletters, -⟩ := kind.exists_toList_tag
  have hfound (k : PlaceKind) (m : Nat) (rest : List Char) :
      '@' :: letters <+: (place k m).written ++ rest ↔ kind = k := by
    rw [← hletters, tag_isPrefix_iff]
  rw [hletters, occursIn_textOf hpieces (fun k _ => kind = k) hfound]
  constructor
  · rintro ⟨k, m, hmem, rfl⟩
    exact ⟨m, hmem⟩
  · rintro ⟨m, hmem⟩
    exact ⟨kind, m, hmem, rfl⟩

/-- Replacing a place in the text replaces the pieces that are this place. -/
theorem replace_textOf (hpieces : ∀ p ∈ pieces, p.Unmarked) (value : List Char) :
    Text.replace (place kind n).written value (textOf pieces) =
      textOf (pieces.map fun p => if p = place kind n then literal value else p) := by
  obtain ⟨body, hbody, hbody'⟩ := exists_written_place kind n
  induction pieces with
  | nil => rfl
  | cons p pieces ih =>
    obtain ⟨hp, hpieces⟩ := List.forall_mem_cons.mp hpieces
    rw [List.map_cons, textOf_cons, textOf_cons, ← ih hpieces]
    split
    · rename_i heq
      rw [heq, hbody, Text.replace_pattern]
      rfl
    · rename_i hne
      cases p with
      | literal cs => rw [hbody, written, Text.replace_append hp]
      | place k m =>
        -- The place is not found where another one begins, and not after that in it.
        obtain ⟨more, hmore, hmark⟩ := exists_written_place k m
        have hother : ('@' :: body).isPrefixOf ('@' :: (more ++ textOf pieces)) = false := by
          rw [Bool.eq_false_iff, ne_eq, List.isPrefixOf_iff_prefix, ← List.cons_append,
            ← hmore, ← hbody, written_isPrefix_iff]
          exact Ne.symm hne
        rw [hbody, hmore, List.cons_append, Text.replace, Text.replaceFrom, hother,
          if_neg Bool.false_ne_true]
        exact congrArg ('@' :: ·) (Text.replace_append hmark _)

end Piece

/-! ## Filling text and pieces -/

section ActsAs

variable {ε : Type}

/-- What `F` does with a text is what `f` does with its pieces. -/
structure ActsAs (F : List Char → Except ε (List Char)) (f : Piece → Except ε Piece) : Prop where
  eq_ok : ∀ pieces, (∀ p ∈ pieces, p.Unmarked) → ∀ out,
    F (Piece.textOf pieces) = .ok out ↔ ∃ filled, pieces.mapM f = .ok filled ∧
      out = Piece.textOf filled
  unmarked : ∀ p q, p.Unmarked → f p = .ok q → q.Unmarked

variable {F G : List Char → Except ε (List Char)} {f g : Piece → Except ε Piece}

theorem ActsAs.unmarked_mapM (h : ActsAs F f) {pieces filled : List Piece}
    (hpieces : ∀ p ∈ pieces, p.Unmarked) (hfilled : pieces.mapM f = .ok filled) :
    ∀ q ∈ filled, q.Unmarked := by
  intro q hq
  obtain ⟨p, hp, hpq⟩ := exists_of_forall₂_right (mapM_eq_ok.mp hfilled) hq
  exact h.unmarked p q (hpieces p hp) hpq

theorem ActsAs.pure : ActsAs (ε := ε) .ok .ok := by
  refine ⟨fun pieces _ out => ?_, fun p q hp hpq => ?_⟩
  · have hsame : pieces.mapM (m := Except ε) .ok = .ok pieces :=
      mapM_eq_ok.mpr (List.forall₂_same.mpr fun _ _ => rfl)
    simp [hsame, eq_comm]
  · cases hpq
    exact hp

/-- Two steps on the text are two steps on each piece. -/
theorem ActsAs.bind (hf : ActsAs F f) (hg : ActsAs G g) :
    ActsAs (fun cs => F cs >>= G) (fun p => f p >>= g) := by
  refine ⟨fun pieces hpieces out => ?_, fun p r hp hpr => ?_⟩
  · simp only [bind_eq_ok, mapM_bind_eq_ok, hf.eq_ok pieces hpieces]
    constructor
    · rintro ⟨_, ⟨filled, hfilled, rfl⟩, hout⟩
      obtain ⟨more, hmore, rfl⟩ := (hg.eq_ok filled (hf.unmarked_mapM hpieces hfilled) out).mp hout
      exact ⟨more, ⟨filled, hfilled, hmore⟩, rfl⟩
    · rintro ⟨more, ⟨filled, hfilled, hmore⟩, rfl⟩
      exact ⟨_, ⟨filled, hfilled, rfl⟩,
        (hg.eq_ok filled (hf.unmarked_mapM hpieces hfilled) _).mpr ⟨more, hmore, rfl⟩⟩
  · obtain ⟨q, hpq, hqr⟩ := bind_eq_ok.mp hpr
    exact hg.unmarked q r (hf.unmarked p q hp hpq) hqr

end ActsAs

namespace Piece

/-- Put a value in one place. -/
def put (target : Piece) (value : Except InstructionError (List Char)) (p : Piece) :
    Except InstructionError Piece :=
  if p = target then value.map literal else .ok p

/-- What an operand has for a place, or the error if it has nothing. -/
def valueOf (name : String) (step n : Nat) (o : MatchedOperand) :
    PlaceKind → Except InstructionError (List Char)
  | .argument => o.argumentText?.elim (.error (.noArgument name step n)) fun t => .ok t.toList
  | .register => o.register.elim (.error (.noRegister name step n)) fun t => .ok t.toList
  | .text => .ok o.text.toList

/-- Put an operand in its places. -/
def fillOperand (name : String) (step n : Nat) (o : MatchedOperand) (p : Piece) :
    Except InstructionError Piece :=
  put (.place .argument n) (valueOf name step n o .argument) p >>= fun p =>
    put (.place .register n) (valueOf name step n o .register) p >>=
      put (.place .text n) (valueOf name step n o .text)

/-- Put operands from `n` on in their places. -/
def fillFrom (name : String) (step n : Nat) :
    List MatchedOperand → Piece → Except InstructionError Piece
  | [], p => .ok p
  | o :: rest, p => fillOperand name step n o p >>= fillFrom name step (n + 1) rest

variable {name : String} {step n : Nat} {o : MatchedOperand} {kind : PlaceKind} {v : List Char}

/-- Nothing happens where the place is not there. -/
theorem mapM_put_of_not_mem {target : Piece} {value : Except InstructionError (List Char)}
    {pieces : List Piece} (h : target ∉ pieces) : pieces.mapM (put target value) = .ok pieces := by
  refine mapM_eq_ok.mpr (List.forall₂_same.mpr fun p hp => ?_)
  rw [put, if_neg]
  rintro rfl
  exact h hp

theorem mapM_put_ok (target : Piece) (v : List Char) (pieces : List Piece) :
    pieces.mapM (put target (.ok v)) =
      .ok (pieces.map fun p => if p = target then literal v else p) := by
  refine mapM_eq_ok.mpr (List.forall₂_map_right_iff.mpr (List.forall₂_same.mpr fun p _ => ?_))
  unfold put
  split
  · rfl
  · rfl

theorem valueOf_eq_ok :
    valueOf name step n o kind = .ok v ↔ ∃ t, kind.text? o = some t ∧ v = t.toList := by
  cases kind with
  | argument => cases h : o.argumentText? <;> simp [valueOf, PlaceKind.text?, h, eq_comm]
  | register => cases h : o.register <;> simp [valueOf, PlaceKind.text?, h, eq_comm]
  | text => simp [valueOf, PlaceKind.text?, eq_comm]

end Piece

/-- Nothing that an operand has for a place has the mark of places. -/
def MatchedOperand.Unmarked (o : MatchedOperand) : Prop :=
  ∀ kind : PlaceKind, ∀ t ∈ kind.text? o, '@' ∉ t.toList

theorem MatchedOperand.unmarked_iff {o : MatchedOperand} :
    o.Unmarked ↔ ∀ kind ∈ [PlaceKind.argument, .register, .text], ∀ t ∈ kind.text? o,
      '@' ∉ t.toList := by
  refine ⟨fun h kind _ => h kind, fun h kind => h kind ?_⟩
  cases kind <;> decide

instance : DecidablePred MatchedOperand.Unmarked :=
  fun _ => decidable_of_iff' _ MatchedOperand.unmarked_iff

namespace ActsAs

variable {name : String} {step n : Nat} {o : MatchedOperand} {operands : List MatchedOperand}

theorem fillPlaces (kind : PlaceKind) {value : Except InstructionError (List Char)}
    (hvalue : ∀ v, value = .ok v → '@' ∉ v) :
    ActsAs (Macro.fillPlaces kind.tag n value) (Piece.put (.place kind n) value) := by
  refine ⟨fun pieces hpieces out => ?_, fun p q hp hpq => ?_⟩
  · have hplace : s!"{kind.tag}({n})".toList = (Piece.place kind n).written := rfl
    have hfound : Text.occursIn (Piece.place kind n).written (Piece.textOf pieces) = true ↔ _ :=
      Piece.occursIn_place hpieces
    unfold Macro.fillPlaces
    dsimp only
    rw [hplace]
    by_cases hmem : Piece.place kind n ∈ pieces
    · rw [if_pos (hfound.mpr hmem)]
      cases value with
      | ok v =>
        rw [ok_bind, Piece.replace_textOf hpieces, Piece.mapM_put_ok, pure_eq_ok]
        simp [eq_comm]
      | error e =>
        simp only [error_bind, reduceCtorEq, false_iff]
        rintro ⟨filled, hfilled, -⟩
        obtain ⟨q, -, hq⟩ := exists_of_forall₂_left (mapM_eq_ok.mp hfilled) hmem
        rw [Piece.put, if_pos rfl] at hq
        cases hq
    · rw [if_neg (mt hfound.mp hmem), Piece.mapM_put_of_not_mem hmem]
      simp [eq_comm]
  · unfold Piece.put at hpq
    split at hpq
    · obtain ⟨v, hv, rfl⟩ := map_eq_ok.mp hpq
      exact hvalue v hv
    · cases hpq
      exact hp

theorem fillOperand (ho : o.Unmarked) :
    ActsAs (Macro.fillOperand name step n o) (Piece.fillOperand name step n o) := by
  have hplaces (kind : PlaceKind) :
      ActsAs (Macro.fillPlaces kind.tag n (Piece.valueOf name step n o kind))
      (Piece.put (.place kind n) (Piece.valueOf name step n o kind)) := by
    refine fillPlaces kind fun v hv => ?_
    obtain ⟨t, ht, rfl⟩ := Piece.valueOf_eq_ok.mp hv
    exact ho kind t ht
  have hsteps : Macro.fillOperand name step n o = fun cs =>
      Macro.fillPlaces "@ARG" n (Piece.valueOf name step n o .argument) cs >>= fun cs =>
        Macro.fillPlaces "@REG" n (Piece.valueOf name step n o .register) cs >>=
          Macro.fillPlaces "@OP" n (Piece.valueOf name step n o .text) := by
    funext cs
    unfold Macro.fillOperand Piece.valueOf
    cases o.argumentText? <;> cases o.register <;> rfl
  rw [hsteps]
  exact (hplaces .argument).bind ((hplaces .register).bind (hplaces .text))

/-- Filling all places acts on the pieces one by one. -/
theorem fillFrom (hoperands : ∀ o ∈ operands, o.Unmarked) :
    ActsAs (Macro.fillFrom name step n operands) (Piece.fillFrom name step n operands) := by
  induction operands generalizing n with
  | nil => exact .pure
  | cons o rest ih =>
    obtain ⟨ho, hrest⟩ := List.forall_mem_cons.mp hoperands
    exact (fillOperand ho).bind (ih hrest)

end ActsAs

/-! ## One place -/

namespace Piece

variable {name : String} {step n m : Nat} {o : MatchedOperand} {operands : List MatchedOperand}
  {kind : PlaceKind}
  {cs : List Char} {q : Piece}

theorem fillOperand_literal : fillOperand name step n o (literal cs) = .ok (literal cs) := by
  simp [fillOperand, put]

theorem fillOperand_place : fillOperand name step n o (place kind m) =
    if m = n then (valueOf name step n o kind).map literal else .ok (place kind m) := by
  by_cases h : m = n
  · subst h
    cases kind with
    | argument =>
      cases hv : valueOf name step m o .argument <;> simp [fillOperand, put, hv, Except.map]
    | register =>
      cases hv : valueOf name step m o .register <;> simp [fillOperand, put, hv, Except.map]
    | text => cases hv : valueOf name step m o .text <;> simp [fillOperand, put, hv, Except.map]
  · simp [fillOperand, put, h]

theorem fillFrom_literal : fillFrom name step n operands (literal cs) = .ok (literal cs) := by
  induction operands generalizing n with
  | nil => rfl
  | cons o rest ih => rw [fillFrom, fillOperand_literal, ok_bind, ih]

/-- A place is filled with what its operand has. -/
theorem fillFrom_place (h : operands[m]? = some o) :
    fillFrom name step n operands (place kind (n + m)) =
      (valueOf name step (n + m) o kind).map literal := by
  induction operands generalizing n m with
  | nil => cases h
  | cons first rest ih =>
    rw [fillFrom, fillOperand_place]
    cases m with
    | zero =>
      cases h
      rw [Nat.add_zero, if_pos rfl]
      cases valueOf name step n o kind with
      | error e => rfl
      | ok v => exact fillFrom_literal
    | succ m =>
      have hnext : n + (m + 1) = n + 1 + m := by omega
      rw [if_neg (by omega), ok_bind, hnext, ih h]

/-- A place without an operand stays. -/
theorem fillFrom_place_of_none (h : operands[m]? = none) :
    fillFrom name step n operands (place kind (n + m)) = .ok (place kind (n + m)) := by
  induction operands generalizing n m with
  | nil => rfl
  | cons first rest ih =>
    rw [fillFrom, fillOperand_place]
    cases m with
    | zero => cases h
    | succ m =>
      have hnext : n + (m + 1) = n + 1 + m := by omega
      rw [if_neg (by omega), ok_bind, hnext, ih h]

/-- There is something to put in the place of a piece. -/
def Fillable (operands : List MatchedOperand) : Piece → Prop
  | literal _ => True
  | place kind n => ∃ o, operands[n]? = some o ∧ (kind.text? o).isSome = true

/-- What stands in the result for a piece: itself, or what the operand has for the place. -/
def filled (operands : List MatchedOperand) : Piece → List Char
  | literal cs => cs
  | place kind n => ((operands[n]?.bind kind.text?).getD "").toList

theorem fillFrom_of_fillable {p : Piece} (h : p.Fillable operands) :
    fillFrom name step 0 operands p = .ok (literal (p.filled operands)) := by
  cases p with
  | literal cs => exact fillFrom_literal
  | place kind n =>
    obtain ⟨o, ho, hvalue⟩ := h
    obtain ⟨t, ht⟩ := Option.isSome_iff_exists.mp hvalue
    have hplace : fillFrom name step 0 operands (place kind (0 + n)) = _ := fillFrom_place ho
    rw [Nat.zero_add, valueOf_eq_ok.mpr ⟨t, ht, rfl⟩] at hplace
    rw [hplace, filled, ho, Option.bind_some, ht]
    rfl

theorem fillable_of_fillFrom {p : Piece} (h : fillFrom name step 0 operands p = .ok (literal cs)) :
    p.Fillable operands := by
  cases p with
  | literal cs => trivial
  | place kind n =>
    rw [← Nat.zero_add n] at h
    cases ho : operands[n]? with
    | none =>
      rw [fillFrom_place_of_none ho] at h
      cases h
    | some o =>
      rw [fillFrom_place ho] at h
      obtain ⟨v, hv, -⟩ := map_eq_ok.mp h
      obtain ⟨t, ht, -⟩ := valueOf_eq_ok.mp hv
      exact ⟨o, ho, by rw [ht]; rfl⟩

/-- What operands need to have, by the kinds of the places. -/
theorem forall_fillable_iff {pieces : List Piece} : (∀ p ∈ pieces, p.Fillable operands) ↔
    (∀ kind n, place kind n ∈ pieces → n < operands.length) ∧
    (∀ n o, place .argument n ∈ pieces → operands[n]? = some o → o.argumentText?.isSome = true) ∧
    ∀ n o, place .register n ∈ pieces → operands[n]? = some o → o.register.isSome = true := by
  have hvalue {kind : PlaceKind} (h : ∀ p ∈ pieces,
      p.Fillable operands) {n : Nat} {o : MatchedOperand}
      (hp : place kind n ∈ pieces) (ho : operands[n]? = some o) : (kind.text? o).isSome = true := by
    obtain ⟨o', ho', hsome⟩ := h _ hp
    rw [ho] at ho'
    cases ho'
    exact hsome
  constructor
  · intro h
    refine ⟨fun kind n hp => ?_, fun n o => hvalue h, fun n o => hvalue h⟩
    obtain ⟨o, ho, -⟩ := h _ hp
    exact (List.getElem?_eq_some_iff.mp ho).1
  · rintro ⟨hcount, hargument, hregister⟩ p hp
    cases p with
    | literal cs => trivial
    | place kind n =>
      have ho := List.getElem?_eq_getElem (hcount kind n hp)
      refine ⟨_, ho, ?_⟩
      cases kind with
      | argument => exact hargument n _ hp ho
      | register => exact hregister n _ hp ho
      | text => rfl

end Piece

namespace Macro

variable {name : String} {step : Nat} {operands : List MatchedOperand} {pieces : List Piece}
  {out : List Char}

/-- Filling succeeds if no place is left. -/
theorem fill_eq_ok (hpieces : ∀ p ∈ pieces, p.Unmarked) (hoperands : ∀ o ∈ operands, o.Unmarked) :
    fill name step operands (String.ofList (Piece.textOf pieces)) = .ok out ↔
      ∃ filled, pieces.mapM (Piece.fillFrom name step 0 operands) = .ok filled ∧
        (∀ kind n, Piece.place kind n ∉ filled) ∧ out = Piece.textOf filled := by
  have hacts : ActsAs (fillFrom name step 0 operands) (Piece.fillFrom name step 0 operands) :=
    .fillFrom hoperands
  have htags (tag : String) : tag ∈ ["@ARG", "@REG", "@OP"] ↔ ∃ kind : PlaceKind,
      kind.tag = tag := by
    constructor
    · intro h
      rcases List.mem_cons.mp h with rfl | h
      · exact ⟨.argument, rfl⟩
      · rcases List.mem_cons.mp h with rfl | h
        · exact ⟨.register, rfl⟩
        · exact ⟨.text, (List.mem_singleton.mp h).symm⟩
    · rintro ⟨kind, rfl⟩
      cases kind <;> decide
  have hleft {filled : List Piece} (hfilled : pieces.mapM (Piece.fillFrom name step 0 operands) =
      .ok filled) :
      (["@ARG", "@REG", "@OP"].find? fun tag => Text.occursIn tag.toList (Piece.textOf filled)) =
        none ↔ ∀ kind n, Piece.place kind n ∉ filled := by
    simp only [List.find?_eq_none, htags, forall_exists_index, forall_apply_eq_imp_iff,
      Piece.occursIn_tag (hacts.unmarked_mapM hpieces hfilled), not_exists]
  unfold fill
  rw [String.toList_ofList]
  simp only [bind_eq_ok, hacts.eq_ok pieces hpieces]
  constructor
  · rintro ⟨_, ⟨filled, hfilled, rfl⟩, h⟩
    split at h
    · cases h
    · rename_i hnone
      exact ⟨filled, hfilled, (hleft hfilled).mp hnone, (pure_eq_ok.mp h).symm⟩
  · rintro ⟨filled, hfilled, hnone, rfl⟩
    refine ⟨_, ⟨filled, hfilled, rfl⟩, ?_⟩
    rw [(hleft hfilled).mpr hnone]
    rfl

end Macro

/-- **Templates are filled in all places at once.** Let a template consist of literal text and
places, and let neither the literal text nor what the operands have for places contain the mark of
places. Filling the template succeeds exactly if each place has its operand, with an argument where
the place asks for one and with a register where it asks for one. The result is the template with
each place replaced, where it stands, by what its operand has for it. -/
theorem fill_is_simultaneous (name : String) (step : Nat) (operands : List MatchedOperand)
    (pieces : List Piece) (hpieces : ∀ p ∈ pieces, p.Unmarked)
    (hoperands : ∀ o ∈ operands, o.Unmarked) :
    ((∃ out, Macro.fill name step operands (String.ofList (Piece.textOf pieces)) = .ok out) ↔
      (∀ kind n, .place kind n ∈ pieces → n < operands.length) ∧
      (∀ n o, .place .argument n ∈ pieces → operands[n]? = some o → o.argumentText?.isSome = true) ∧
      ∀ n o, .place .register n ∈ pieces → operands[n]? = some o → o.register.isSome = true) ∧
    ∀ out, Macro.fill name step operands (String.ofList (Piece.textOf pieces)) = .ok out →
      out = pieces.flatMap (Piece.filled operands) := by
  have hfillable {filled : List Piece}
      (hfilled : pieces.mapM (Piece.fillFrom name step 0 operands) = .ok filled)
      (hnone : ∀ kind n, Piece.place kind n ∉ filled) : ∀ p ∈ pieces, p.Fillable operands := by
    intro p hp
    obtain ⟨q, hq, hpq⟩ := exists_of_forall₂_left (mapM_eq_ok.mp hfilled) hp
    cases q with
    | literal cs => exact Piece.fillable_of_fillFrom hpq
    | place kind n => exact absurd hq (hnone kind n)
  have hmap (h : ∀ p ∈ pieces, p.Fillable operands) :
      pieces.mapM (Piece.fillFrom name step 0 operands) =
      .ok (pieces.map fun p => .literal (p.filled operands)) :=
    mapM_eq_ok.mpr (List.forall₂_map_right_iff.mpr (List.forall₂_same.mpr fun p hp =>
      Piece.fillFrom_of_fillable (h p hp)))
  have htext : Piece.textOf (pieces.map fun p => .literal (p.filled operands)) =
      pieces.flatMap (Piece.filled operands) := List.flatMap_map _ _ _
  rw [← Piece.forall_fillable_iff]
  refine ⟨⟨?_, fun h => ?_⟩, fun out hout => ?_⟩
  · rintro ⟨out, hout⟩
    obtain ⟨filled, hfilled, hnone, -⟩ := (Macro.fill_eq_ok hpieces hoperands).mp hout
    exact hfillable hfilled hnone
  · refine ⟨_, (Macro.fill_eq_ok hpieces hoperands).mpr ⟨_, hmap h, fun kind n hmem => ?_, rfl⟩⟩
    obtain ⟨p, -, hp⟩ := List.mem_map.mp hmem
    cases hp
  · obtain ⟨filled, hfilled, hnone, rfl⟩ := (Macro.fill_eq_ok hpieces hoperands).mp hout
    rw [hmap (hfillable hfilled hnone)] at hfilled
    cases hfilled
    exact htext

/-- An operand that has everything, and a text that looks like the place of the next one. -/
def MatchedOperand.numbered (i : Nat) : MatchedOperand :=
  { id := "operand", place := .after, code := none, register := some "a", text := s!"OP({i + 1})",
    argument := some (.leaf (.literal i)
      { size := 8, aligned := true, wordOrder := .big, segmentOrder := .big, line := default }) }

/-- Eleven operands, of which the last one has two digits. -/
theorem fill_is_simultaneous_eleven :
    let operands := (List.range 11).map MatchedOperand.numbered
    Macro.fill "both" 0 operands "ld @OP(1), @OP(10) + @ARG(10), @REG(0)" =
      .ok "ld OP(2), OP(11) + 10, a".toList := by
  intro operands
  let pieces : List Piece :=
    [.literal "ld ".toList, .place .text 1, .literal ", ".toList, .place .text 10,
      .literal " + ".toList, .place .argument 10, .literal ", ".toList, .place .register 0]
  have htemplate : String.ofList (Piece.textOf pieces) =
      "ld @OP(1), @OP(10) + @ARG(10), @REG(0)" := by decide
  have hnumber {kind : PlaceKind} {n : Nat} (h : Piece.place kind n ∈ pieces) : n <
      operands.length := by
    simp only [pieces, List.mem_cons, reduceCtorEq, Piece.place.injEq, List.not_mem_nil, false_or,
      or_false] at h
    rcases h with ⟨-, rfl⟩ | ⟨-, rfl⟩ | ⟨-, rfl⟩ | ⟨-, rfl⟩ <;> decide
  have hhas {n : Nat} {o : MatchedOperand} (h : operands[n]? = some o) :
      o.argumentText?.isSome = true ∧ o.register.isSome = true := by
    obtain ⟨i, -, rfl⟩ := List.mem_map.mp (List.mem_of_getElem? h)
    exact ⟨rfl, rfl⟩
  obtain ⟨hok, hresult⟩ := fill_is_simultaneous "both" 0 operands pieces (by decide) (by decide)
  obtain ⟨out, hout⟩ :=
    hok.mpr ⟨fun _ _ => hnumber, fun _ _ _ h => (hhas h).1, fun _ _ _ h => (hhas h).2⟩
  have hsame : pieces.flatMap (Piece.filled operands) = "ld OP(2), OP(11) + 10, a".toList := by
    decide
  rw [← htemplate, hout, hresult out hout, hsame]

end Retarget
