import Mathlib.Data.List.DropRight
import Mathlib.Data.List.TakeWhile
import Retarget.Proofs.Expr.Name
import Retarget.Proofs.Symbol.Substitution
import Retarget.Text.WordChar

/-!
# Blanks

Which characters are no blanks, and what is left of a text when the blanks around it are dropped.
Blanks are dropped at the two ends in either order (`trimStart_trimEnd`), and those between two
texts stay (`exists_gap`).
-/

namespace Retarget.Text

variable {c d : Char} {a b lead tail x y : List Char}

/-! ## Characters -/

/-- The ranges of the blanks. -/
def blankRanges : List (Nat × Nat) :=
  [(0x9, 0xD), (0x20, 0x20), (0x85, 0x85), (0xA0, 0xA0), (0x1680, 0x1680), (0x2000, 0x200A),
    (0x2028, 0x2029), (0x202F, 0x202F), (0x205F, 0x205F), (0x3000, 0x3000)]

theorem inRanges_of_isBlank (h : isBlank c = true) : inRanges blankRanges c.toNat = true := by
  simp only [isBlank, Bool.or_eq_true, Bool.and_eq_true, decide_eq_true_eq, beq_iff_eq] at h
  simp only [inRanges, blankRanges, List.any_cons, List.any_nil, Bool.or_eq_true, Bool.and_eq_true,
    decide_eq_true_eq, Bool.false_eq_true, or_false]
  omega

/-- A number in one of some ranges is in none of the ranges apart from them. -/
theorem inRanges_eq_false {xs ys : List (Nat × Nat)} {n : Nat}
    (hdisjoint : (ys.all fun y => xs.all fun x => x.2 < y.1 || y.2 < x.1) = true)
    (h : inRanges xs n = true) : inRanges ys n = false := by
  obtain ⟨x, hx, hn⟩ := List.any_eq_true.mp h
  refine List.any_eq_false.mpr fun y hy hn' => ?_
  have hapart := List.all_eq_true.mp (List.all_eq_true.mp hdisjoint y hy) x hx
  simp only [Bool.or_eq_true, Bool.and_eq_true, decide_eq_true_eq] at hn hn' hapart
  omega

theorem ne_of_isBlank (h : isBlank c = true) (hd : isBlank d = false) : c ≠ d := by
  rintro rfl
  rw [h] at hd
  cases hd

theorem isNameChar_of_isBlank (h : isBlank c = true) : isNameChar c = false := by
  cases hname : isNameChar c with
  | false => rfl
  | true => rw [isBlank_of_isNameChar hname] at h; cases h

theorem isWordChar_of_isBlank (h : isBlank c = true) : isWordChar c = false := by
  unfold isWordChar
  split
  · exact isNameChar_of_isBlank h
  · exact inRanges_eq_false (by decide +kernel) (inRanges_of_isBlank h)

theorem isQuote_of_isBlank (h : isBlank c = true) : isQuote c = false := by
  have hne {d : Char} (hd : isBlank d = false) : (c == d) = false :=
    beq_false_of_ne (ne_of_isBlank h hd)
  rw [isQuote, hne (by decide), hne (by decide), Bool.or_self]

theorem isBlank_of_isQuote (h : isQuote c = true) : isBlank c = false := by
  have hcases : c = '"' ∨ c = '\'' := by simpa [isQuote] using h
  rcases hcases with rfl | rfl
  · rfl
  · rfl

/-- Characters of a class without brackets do not change the depth. -/
theorem bracketStep_eq_zero {p : Char → Bool}
    (hp : ['[', '(', '\x7b', ']', ')', '\x7d'].any p = false) (h : p c = true) :
    bracketStep c = 0 := by
  have hmem : c ∉ ['[', '(', '\x7b', ']', ')', '\x7d'] :=
    fun hmem => List.any_eq_false.mp hp c hmem h
  simp only [List.mem_cons, List.not_mem_nil, or_false, not_or] at hmem
  simp [bracketStep, hmem]

theorem bracketStep_of_isBlank (h : isBlank c = true) : bracketStep c = 0 :=
  bracketStep_eq_zero (by decide) h

theorem isWordChar_of_isNameChar (h : isNameChar c = true) : isWordChar c = true := by
  rw [isWordChar, if_pos (toNat_of_isNameChar h).2, h]

/-! ## Texts -/

theorem trimStart_cons (h : isBlank c = false) (cs : List Char) :
    trimStart (c :: cs) = c :: cs := by
  rw [trimStart, List.dropWhile_cons_of_neg (by rw [h]; exact Bool.false_ne_true)]

theorem trimStart_of_head (h : ∀ c ∈ x.head?, isBlank c = false) : trimStart x = x := by
  cases x with
  | nil => rfl
  | cons c x => exact trimStart_cons (h c rfl) x

theorem trimEnd_append_cons (h : isBlank c = false) (a b : List Char) :
    trimEnd (a ++ c :: b) = a ++ c :: trimEnd b := by
  have hturned : (a ++ c :: b).reverse = b.reverse ++ c :: a.reverse := by simp
  rw [trimEnd, hturned, dropWhile_append_cons h, List.reverse_append, List.reverse_cons,
    List.reverse_reverse, List.append_assoc, List.singleton_append, trimEnd]

/-- Blanks at the two ends may be dropped in either order. -/
theorem trimStart_trimEnd (cs : List Char) : trimStart (trimEnd cs) = trim cs := by
  induction cs with
  | nil => rfl
  | cons c cs ih =>
    cases hc : isBlank c with
    | false =>
      have hend : trimEnd (c :: cs) = c :: trimEnd cs := trimEnd_append_cons hc [] cs
      rw [trim, trimStart_cons hc, hend, trimStart_cons hc]
    | true =>
      have hstart (ds : List Char) : trimStart (c :: ds) = trimStart ds :=
        List.dropWhile_cons_of_pos hc
      have hend : trimStart (trimEnd (c :: cs)) = trimStart (trimEnd cs) := by
        rw [trimEnd, List.reverse_cons, List.dropWhile_append]
        split
        · rename_i hblank
          rw [trimEnd, List.isEmpty_iff.mp hblank, List.dropWhile_cons_of_pos hc]
          rfl
        · rw [List.reverse_append, List.reverse_singleton, List.singleton_append, hstart, trimEnd]
      rw [hend, ih, trim, trim, hstart]

/-- No blank is dropped beyond a character that is none. -/
theorem trim_append_cons (h : isBlank c = false) (a b : List Char) :
    trim (a ++ c :: b) = trimStart a ++ c :: trimEnd b := by
  rw [trim, trimStart, dropWhile_append_cons h, ← trimStart, trimEnd_append_cons h]

theorem trim_cons (h : isBlank c = false) (cs : List Char) : trim (c :: cs) = c :: trimEnd cs :=
  trim_append_cons h [] cs

theorem trim_concat (h : isBlank c = false) (cs : List Char) :
    trim (cs ++ [c]) = trimStart cs ++ [c] :=
  trim_append_cons h cs []

theorem trim_trimStart (cs : List Char) : trim (trimStart cs) = trim cs := by
  rw [trim, trimStart, trimStart, List.dropWhile_idempotent, ← trimStart, ← trim]

theorem trimStart_trim (cs : List Char) : trimStart (trim cs) = trim cs := by
  rw [← trimStart_trimEnd, trimStart, trimStart, List.dropWhile_idempotent]

theorem trimEnd_trimEnd (cs : List Char) : trimEnd (trimEnd cs) = trimEnd cs := by
  rw [trimEnd, trimEnd, List.reverse_reverse, List.dropWhile_idempotent]

theorem trimEnd_trim (cs : List Char) : trimEnd (trim cs) = trim cs := by
  rw [trim, trimEnd_trimEnd]

theorem trim_trimEnd (cs : List Char) : trim (trimEnd cs) = trim cs := by
  rw [trim, trimStart_trimEnd, trimEnd_trim]

theorem trim_trim (cs : List Char) : trim (trim cs) = trim cs := by
  rw [trim, trimStart_trim, trimEnd_trim]

theorem trimStart_of_trim (h : trim x = x) : trimStart x = x := by
  rw [← h, trimStart_trim]

theorem trimEnd_of_trim (h : trim x = x) : trimEnd x = x := by
  rw [← h, trimEnd_trim]

theorem trim_of_trimEnd (h : trimEnd x = x) : trim x = trimStart x := by
  rw [← trimStart_trimEnd, h]

theorem trimEnd_sublist (cs : List Char) : (trimEnd cs).Sublist cs := by
  rw [trimEnd, ← List.reverse_sublist, List.reverse_reverse]
  exact List.dropWhile_sublist isBlank

theorem trim_sublist (cs : List Char) : (trim cs).Sublist cs :=
  (trimEnd_sublist (trimStart cs)).trans (List.dropWhile_sublist isBlank)

theorem trimStart_append (h : trimStart x ≠ []) (y : List Char) :
    trimStart (x ++ y) = trimStart x ++ y := by
  rw [trimStart, List.dropWhile_append, if_neg (by simpa [trimStart] using h), ← trimStart]

theorem trimEnd_append (h : trimEnd y ≠ []) (x : List Char) :
    trimEnd (x ++ y) = x ++ trimEnd y := by
  have hturned : ¬ (y.reverse.dropWhile isBlank).isEmpty = true := by simpa [trimEnd] using h
  rw [trimEnd, List.reverse_append, List.dropWhile_append, if_neg hturned, List.reverse_append,
    List.reverse_reverse, ← trimEnd]

/-- A text with no blank before it and none at its end. -/
theorem trim_append_of_head (hx : ∀ c ∈ (x ++ y).head?, isBlank c = false) (hy : trim y = y)
    (hne : y ≠ []) : trim (x ++ y) = x ++ y := by
  have hend := trimEnd_of_trim hy
  rw [trim, trimStart_of_head hx, trimEnd_append (by rwa [hend]), hend]

/-- Blanks inside a text stay. -/
theorem trim_append_append (hx : trim x = x) (hy : trim y = y) (hxne : x ≠ []) (hyne : y ≠ [])
    (between : List Char) : trim (x ++ (between ++ y)) = x ++ (between ++ y) := by
  have hstart := trimStart_of_trim hx
  have hend := trimEnd_of_trim hy
  rw [trim, trimStart_append (by rwa [hstart]), hstart, ← List.append_assoc,
    trimEnd_append (by rwa [hend]), hend]

/-- A text stands between the blanks that are dropped from it. -/
theorem exists_blanks (a : List Char) :
    ∃ lead tail, a = lead ++ (trim a ++ tail) ∧ (∀ c ∈ lead, isBlank c = true) ∧ ∀ c ∈ tail,
      isBlank c = true := by
  refine ⟨a.takeWhile isBlank, ((trimStart a).reverse.takeWhile isBlank).reverse, ?_,
    fun c hc => List.mem_takeWhile_imp hc,
    fun c hc => List.mem_takeWhile_imp (List.mem_reverse.mp hc)⟩
  rw [trim, trimEnd, ← List.reverse_append, List.takeWhile_append_dropWhile,
    List.reverse_reverse, trimStart, List.takeWhile_append_dropWhile]

theorem trim_blanks_append (hlead : ∀ c ∈ lead, isBlank c = true) (x : List Char) :
    trim (lead ++ x) = trim x := by
  rw [trim, trimStart, List.dropWhile_append_of_pos hlead, ← trimStart, ← trim]

theorem trimEnd_append_blanks (htail : ∀ c ∈ tail, isBlank c = true) (x : List Char) :
    trimEnd (x ++ tail) = trimEnd x := by
  have hturned : ∀ c ∈ tail.reverse, isBlank c = true :=
    fun c hc => htail c (List.mem_reverse.mp hc)
  rw [trimEnd, List.reverse_append, List.dropWhile_append_of_pos hturned, ← trimEnd]

theorem trim_append_blanks (htail : ∀ c ∈ tail, isBlank c = true) (x : List Char) :
    trim (x ++ tail) = trim x := by
  rw [← trimStart_trimEnd, trimEnd_append_blanks htail, trimStart_trimEnd]

theorem trim_concat_blank (hc : isBlank c = true) (hx : trim x = x) : trim (x ++ [c]) = x := by
  rw [trim_append_blanks (by simpa using hc), hx]

theorem trim_between (h : isQuote c = true) (x : List Char) :
    trim (c :: (x ++ [c])) = c :: (x ++ [c]) := by
  have hblank := isBlank_of_isQuote h
  rw [trim_cons hblank, trimEnd_append_cons hblank]
  rfl

/-- Two texts with a blank between them keep the blanks between them. -/
theorem exists_gap (ha : trim a ≠ []) (hb : trim b ≠ []) :
    ∃ gap, gap ≠ [] ∧ (∀ c ∈ gap, isBlank c = true) ∧
      trim (a ++ ' ' :: b) = trim a ++ (gap ++ trim b) := by
  obtain ⟨lead, tail, heq, hlead, htail⟩ := exists_blanks a
  obtain ⟨lead', tail', heq', hlead', htail'⟩ := exists_blanks b
  refine ⟨tail ++ ' ' :: lead', by simp, ?_, ?_⟩
  · intro c hc
    simp only [List.mem_append, List.mem_cons] at hc
    rcases hc with hc | rfl | hc
    · exact htail c hc
    · rfl
    · exact hlead' c hc
  · have hwhole : a ++ ' ' :: b =
        lead ++ (trim a ++ ((tail ++ ' ' :: lead') ++ trim b) ++ tail') := by
      conv_lhs => rw [heq, heq']
      simp
    have hkept := trim_append_append (trim_trim a) (trim_trim b) ha hb (tail ++ ' ' :: lead')
    rw [hwhole, trim_blanks_append hlead, trim_append_blanks htail', hkept]

/-- The end of a text without blanks at its end has none either. -/
theorem trimEnd_of_append (h : trimEnd (a ++ b) = a ++ b) : trimEnd b = b := by
  rcases List.eq_nil_or_concat' b with rfl | ⟨b, c, rfl⟩
  · rfl
  · have hturned : (c :: (b.reverse ++ a.reverse)).dropWhile isBlank =
        c :: (b.reverse ++ a.reverse) := by
      simpa [trimEnd, List.reverse_eq_iff] using h
    have hc : isBlank c = false :=
      Bool.eq_false_iff.mpr
        (List.dropWhile_eq_self_iff.mp hturned (Nat.succ_pos (b.reverse ++ a.reverse).length))
    rw [trimEnd_append_cons hc]
    rfl

theorem trimStart_ne_nil (h : trimEnd b = b) (hb : b ≠ []) : trimStart b ≠ [] := by
  intro hnil
  have hall : ∀ c ∈ b, isBlank c = true := List.dropWhile_eq_nil_iff.mp hnil
  rw [← List.nil_append b, trimEnd_append_blanks hall] at h
  exact hb h.symm

/-- The end of a text without blanks at its end stands before what follows. -/
theorem trimStart_append_of_end (h : trimEnd (a ++ b) = a ++ b) (hb : b ≠ []) (y : List Char) :
    trimStart b ≠ [] ∧ trimStart (b ++ y) = trimStart b ++ y := by
  have hne := trimStart_ne_nil (trimEnd_of_append h) hb
  exact ⟨hne, trimStart_append hne y⟩

/-! ## Words -/

/-- A word ends at the first blank. -/
theorem splitWord_append (hx : ∀ c ∈ x, isBlank c = false) (hd : isBlank d = true) (y : List Char) :
    splitWord (x ++ d :: y) = (x, some y) := by
  obtain ⟨htake, hdrop⟩ :=
    takeWhile_append_of_ends (p := fun c => !isBlank c) (a := x) (b := d :: y) (by simpa using hx)
      (by simpa using hd)
  rw [splitWord, htake, hdrop]

end Retarget.Text
