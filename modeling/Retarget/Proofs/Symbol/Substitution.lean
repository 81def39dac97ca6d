import Mathlib.Data.List.Basic
import Retarget.Symbol.Table

/-!
# Replacing symbols in parts

Symbols are replaced word by word, so a text can be cut at any character that belongs to no word and
stands outside quotes, and its parts replaced on their own. Replacing until nothing changes goes on
in both parts at the same pace, and comes to an end when both have
(`SymbolTable.settle_append_of_closed`).

* `SymbolTable.substitute_name`, `SymbolTable.substitute_other`: one pass, word by word;
* `SymbolTable.substitute_append`: one pass over two parts;
* `SymbolTable.mem_of_settle`: quotes do not go away, so a text that ends without them never had
  any.
-/

namespace Retarget

namespace Text

variable {p : Char → Bool} {d : Char} {a b : List Char}

/-- A word ends where a part does. -/
theorem takeWhile_append_cons (hd : p d = false) : (a ++ d :: b).takeWhile p = a.takeWhile p := by
  induction a with
  | nil => simp [hd]
  | cons c a ih => simp only [List.cons_append, List.takeWhile_cons, ih]

theorem dropWhile_append_cons (hd : p d = false) :
    (a ++ d :: b).dropWhile p = a.dropWhile p ++ d :: b := by
  induction a with
  | nil => simp [hd]
  | cons c a ih =>
    simp only [List.cons_append, List.dropWhile_cons, ih]
    split <;> rfl

/-- A word is taken up to its end, where something stands that cannot belong to it. -/
theorem takeWhile_append_of_ends (ha : ∀ c ∈ a, p c = true) (hb : ∀ c ∈ b.head?, p c = false) :
    (a ++ b).takeWhile p = a ∧ (a ++ b).dropWhile p = b := by
  rw [List.takeWhile_append_of_pos ha, List.dropWhile_append_of_pos ha]
  cases b with
  | nil => exact ⟨List.append_nil a, rfl⟩
  | cons d b =>
    have hd : ¬ p d = true := by simp [hb d rfl]
    rw [List.takeWhile_cons_of_neg hd, List.dropWhile_cons_of_neg hd, List.append_nil]
    exact ⟨rfl, rfl⟩

theorem drop_length_takeWhile (p : Char → Bool) (a : List Char) :
    a.drop (a.takeWhile p).length = a.dropWhile p :=
  List.append_cancel_left
    ((List.prefix_iff_eq_append.mp (List.takeWhile_prefix p)).trans
      List.takeWhile_append_dropWhile.symm)

theorem isNameChar_of_isQuote {c : Char} (h : isQuote c = true) : isNameChar c = false := by
  have hcases : c = '"' ∨ c = '\'' := by simpa [isQuote] using h
  rcases hcases with rfl | rfl
  · rfl
  · rfl

theorem quoteAfter_none {c : Char} (hc : isQuote c = false) : quoteAfter none c = none := by
  rw [quoteAfter, hc, if_neg Bool.false_ne_true]

/-- Nothing is opened by a text without quotes. -/
theorem foldl_quoteAfter {x : List Char} (hx : ∀ c ∈ x, isQuote c = false) :
    x.foldl quoteAfter none = none := by
  induction x with
  | nil => rfl
  | cons c x ih =>
    obtain ⟨hc, hx⟩ := List.forall_mem_cons.mp hx
    rw [List.foldl_cons, quoteAfter_none hc]
    exact ih hx

theorem isQuote_of_isNameChar {c : Char} (h : isNameChar c = true) : isQuote c = false := by
  cases hc : isQuote c with
  | false => rfl
  | true => rw [isNameChar_of_isQuote hc] at h; cases h

/-- Nothing is opened by characters that are no quotes. -/
theorem foldl_quoteAfter_dropWhile (hp : ∀ c, p c = true → isQuote c = false) (cs : List Char) :
    (cs.dropWhile p).foldl quoteAfter none = cs.foldl quoteAfter none := by
  induction cs with
  | nil => rfl
  | cons c cs ih =>
    cases hc : p c with
    | false => rw [List.dropWhile_cons_of_neg (by rw [hc]; exact Bool.false_ne_true)]
    | true => rw [List.dropWhile_cons_of_pos hc, ih, List.foldl_cons, quoteAfter_none (hp c hc)]

end Text

namespace SymbolTable

variable {t : SymbolTable} {quote : Option Char} {c d : Char} {cs rest a b m : List Char}
  {passes : Nat}

/-! ## One pass -/

/-- The word at the start of a text is replaced, or left. -/
theorem substitute_name (h : Text.isNameChar c = true) :
    t.substitute none (c :: rest) =
      ((t.replacement (c :: rest.takeWhile Text.isNameChar)).getD
          (c :: rest.takeWhile Text.isNameChar) ++
        (t.substitute none (rest.dropWhile Text.isNameChar)).1,
      (t.replacement (c :: rest.takeWhile Text.isNameChar)).isSome ||
        (t.substitute none (rest.dropWhile Text.isNameChar)).2) := by
  rw [substitute, if_pos (by rw [h]; rfl)]
  dsimp only
  cases t.replacement (c :: rest.takeWhile Text.isNameChar) <;> rfl

/-- Any other character stays. -/
theorem substitute_other (h : (quote.isNone && Text.isNameChar c) = false) :
    t.substitute quote (c :: rest) =
      (c :: (t.substitute (Text.quoteAfter quote c) rest).1,
        (t.substitute (Text.quoteAfter quote c) rest).2) := by
  rw [substitute, if_neg (by rw [h]; exact Bool.false_ne_true)]

/-- Induction over the words of a text and the characters between them. -/
theorem words_induction {motive : Option Char → List Char → Prop} (nil : ∀ quote, motive quote [])
    (name : ∀ c rest, Text.isNameChar c = true → motive none (rest.dropWhile Text.isNameChar) →
      motive none (c :: rest))
    (other : ∀ quote c rest, (quote.isNone && Text.isNameChar c) = false →
      motive (Text.quoteAfter quote c) rest → motive quote (c :: rest)) (quote : Option Char)
    (cs : List Char) : motive quote cs := by
  have hname (quote : Option Char) (c : Char) (rest : List Char)
      (h : (quote.isNone && Text.isNameChar c) = true)
      (ih : motive none (rest.dropWhile Text.isNameChar)) : motive quote (c :: rest) := by
    obtain ⟨hquote, hc⟩ := Bool.and_eq_true_iff.mp h
    rw [Option.isNone_iff_eq_none.mp hquote]
    exact name c rest hc ih
  induction quote, cs using substitute.induct [] with
  | case1 quote => exact nil quote
  | case2 quote c rest h _ _ _ _ _ _ ih => exact hname quote c rest h ih
  | case3 quote c rest h _ _ _ _ _ ih => exact hname quote c rest h ih
  | case4 quote c rest h _ _ _ ih => exact other quote c rest (Bool.eq_false_iff.mpr h) ih

/-- A character that belongs to no word stays. -/
theorem mem_substitute (hd : Text.isNameChar d = false) (h : d ∈ cs) :
    d ∈ (t.substitute quote cs).1 := by
  induction quote, cs using words_induction with
  | nil quote => cases h
  | name c rest hc ih =>
    rw [substitute_name hc]
    refine List.mem_append_right _ (ih ?_)
    rcases List.mem_cons.mp h with rfl | h
    · rw [hc] at hd
      cases hd
    · rw [← List.takeWhile_append_dropWhile (p := Text.isNameChar) (l := rest)] at h
      refine (List.mem_append.mp h).resolve_left fun hword => ?_
      rw [List.all_eq_true.mp List.all_takeWhile d hword] at hd
      cases hd
  | other quote c rest hc ih =>
    rw [substitute_other hc]
    rcases List.mem_cons.mp h with rfl | h
    · exact List.mem_cons_self
    · exact List.mem_cons_of_mem c (ih h)

/-- A pass that replaces nothing gives the text back. -/
theorem substitute_of_unchanged (h : (t.substitute quote cs).2 = false) :
    (t.substitute quote cs).1 = cs := by
  induction quote, cs using words_induction with
  | nil quote => rw [substitute]
  | name c rest hc ih =>
    rw [substitute_name hc] at h ⊢
    obtain ⟨hword, hrest⟩ := Bool.or_eq_false_iff.mp h
    rw [ih hrest, Option.isSome_eq_false_iff.mp hword |> Option.isNone_iff_eq_none.mp,
      Option.getD_none, List.cons_append, List.takeWhile_append_dropWhile]
  | other quote c rest hc ih =>
    rw [substitute_other hc] at h ⊢
    rw [ih h]

/-- One pass over two parts, if the first one leaves no quote open. -/
theorem substitute_append (hd : Text.isNameChar d = false) (hquote : Text.isQuote d = false)
    (hclosed : a.foldl Text.quoteAfter quote = none) (b : List Char) :
    t.substitute quote (a ++ d :: b) =
      ((t.substitute quote a).1 ++ d :: (t.substitute none b).1,
        (t.substitute quote a).2 || (t.substitute none b).2) := by
  induction quote, a using words_induction with
  | nil quote =>
    obtain rfl : quote = none := hclosed
    rw [List.nil_append, substitute_other (by simp [hd]), Text.quoteAfter_none hquote, substitute]
    rfl
  | name c rest hc ih =>
    have hrest : (rest.dropWhile Text.isNameChar).foldl Text.quoteAfter none = none := by
      rw [← List.dropWhile_cons_of_pos hc,
        Text.foldl_quoteAfter_dropWhile fun _ => Text.isQuote_of_isNameChar]
      exact hclosed
    rw [List.cons_append, substitute_name hc, substitute_name hc, Text.takeWhile_append_cons hd,
      Text.dropWhile_append_cons hd, ih hrest, List.append_assoc, Bool.or_assoc]
  | other quote c rest hc ih =>
    rw [List.cons_append, substitute_other hc, substitute_other hc, ih hclosed]
    rfl

/-! ## All passes -/

theorem resolve_eq_ok {text out : String} :
    t.resolve text = .ok out ↔ t.settle maxPasses text.toList = some out.toList := by
  unfold resolve
  cases t.settle maxPasses text.toList with
  | none => simp
  | some m => simp [String.ext_iff]

theorem settle_succ (passes : Nat) (cs : List Char) :
    t.settle (passes + 1) cs =
      if (t.substitute none cs).2 then t.settle passes (t.substitute none cs).1
      else some (t.substitute none cs).1 := rfl

/-- A text without anything to replace stays, with any number of passes. -/
theorem settle_of_unchanged (h : (t.substitute none cs).2 = false) :
    t.settle (passes + 1) cs = some cs := by
  rw [settle_succ, h, if_neg Bool.false_ne_true, substitute_of_unchanged h]

/-- Quotes do not go away. -/
theorem mem_of_settle (hd : Text.isNameChar d = false) (h : t.settle passes cs = some m)
    (hmem : d ∈ cs) : d ∈ m := by
  induction passes generalizing cs with
  | zero => cases h
  | succ passes ih =>
    rw [settle_succ] at h
    split at h
    · exact ih h (mem_substitute hd hmem)
    · cases h
      exact mem_substitute hd hmem

/-- A first part without anything to replace. -/
theorem settle_append_of_unchanged (hd : Text.isNameChar d = false)
    (hquote : Text.isQuote d = false) (hclosed : a.foldl Text.quoteAfter none = none)
    (h : (t.substitute none a).2 = false) (b : List Char) :
    t.settle passes (a ++ d :: b) = (t.settle passes b).map (a ++ d :: ·) := by
  induction passes generalizing b with
  | zero => rfl
  | succ passes ih =>
    rw [settle_succ, settle_succ, substitute_append hd hquote hclosed, h, substitute_of_unchanged h,
      Bool.false_or]
    split
    · exact ih _
    · rfl

/-- **The parts of a text are replaced on their own**, if the first one leaves no quote open and no
pass changes that. -/
theorem settle_append_of_closed {P : List Char → Prop} (hd : Text.isNameChar d = false)
    (hquote : Text.isQuote d = false)
    (hclosed : ∀ cs, P cs → cs.foldl Text.quoteAfter none = none)
    (hpass : ∀ cs, P cs → P (t.substitute none cs).1) (ha : P a) (h : t.settle passes a = some m)
    (b : List Char) : t.settle passes (a ++ d :: b) = (t.settle passes b).map (m ++ d :: ·) := by
  induction passes generalizing a b with
  | zero => cases h
  | succ passes ih =>
    cases hchanged : (t.substitute none a).2 with
    | false =>
      rw [settle_of_unchanged hchanged] at h
      cases h
      exact settle_append_of_unchanged hd hquote (hclosed _ ha) hchanged b
    | true =>
      rw [settle_succ, hchanged, if_pos rfl] at h
      rw [settle_succ, substitute_append hd hquote (hclosed _ ha), hchanged,
        Bool.true_or, if_pos rfl, ih (hpass _ ha) h]
      -- The first part needs another pass, so one is left for a second part that is done already.
      cases hrest : (t.substitute none b).2 with
      | true => rw [settle_succ passes b, hrest, if_pos rfl]
      | false =>
        rw [substitute_of_unchanged hrest, settle_of_unchanged hrest]
        cases passes with
        | zero => cases h
        | succ passes => rw [settle_of_unchanged hrest]

/-- The parts of a text are replaced on their own, if the first one ends up without quotes. -/
theorem settle_append (hd : Text.isNameChar d = false) (hquote : Text.isQuote d = false)
    (hm : ∀ c ∈ m, Text.isQuote c = false) (h : t.settle passes a = some m) (b : List Char) :
    t.settle passes (a ++ d :: b) = (t.settle passes b).map (m ++ d :: ·) := by
  refine settle_append_of_closed (P := fun cs => ∃ n,
    t.settle n cs = some m) hd hquote ?_ ?_ ⟨passes, h⟩ h b
  · rintro cs ⟨n, hn⟩
    refine Text.foldl_quoteAfter fun c hc => ?_
    cases hc' : Text.isQuote c with
    | false => rfl
    | true =>
      rw [hm c (mem_of_settle (Text.isNameChar_of_isQuote hc') hn hc)] at hc'
      cases hc'
  · rintro cs ⟨n, hn⟩
    cases hchanged : (t.substitute none cs).2 with
    | false =>
      rw [substitute_of_unchanged hchanged]
      exact ⟨n, hn⟩
    | true =>
      cases n with
      | zero => cases hn
      | succ n =>
        rw [settle_succ, hchanged, if_pos rfl] at hn
        exact ⟨n, hn⟩

end SymbolTable

end Retarget
