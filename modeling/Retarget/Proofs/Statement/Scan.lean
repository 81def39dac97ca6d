import Retarget.Proofs.Symbol.Resolution
import Retarget.Proofs.Text.Blank
import Retarget.Statement.Reader

/-!
# Where an instruction ends

The operands of an instruction are scanned up to the next mnemonic that stands outside quotes and
brackets and after a character that ends operands. What the scan keeps is a `ScanState`, and a text
changes it character by character, so a scan over a text and what follows it goes on from the state
that the text leaves (`ScanState.scan_append`). Before another mnemonic it stops exactly if the text
is complete (`ScanState.scan_gap`, `ScanState.complete_iff`).
-/

namespace Retarget.Reader

variable {isa : Isa} {c d : Char} {a b cs gap rest t : List Char}

theorem isMnemonicChar_of_isBlank (h : Text.isBlank c = true) : isMnemonicChar c = false := by
  rw [isMnemonicChar, Text.isNameChar_of_isBlank h,
    beq_false_of_ne (Text.ne_of_isBlank h (by decide)), Bool.or_self]

theorem bracketStep_of_isMnemonicChar (h : isMnemonicChar c = true) : Text.bracketStep c = 0 :=
  Text.bracketStep_eq_zero (by decide) h

theorem isBlank_of_isMnemonicChar (h : isMnemonicChar c = true) : Text.isBlank c = false := by
  cases hblank : Text.isBlank c with
  | false => rfl
  | true => rw [isMnemonicChar_of_isBlank hblank] at h; cases h

theorem isQuote_of_isMnemonicChar (h : isMnemonicChar c = true) : Text.isQuote c = false := by
  rcases Bool.or_eq_true_iff.mp h with hname | hdot
  · exact Text.isQuote_of_isNameChar hname
  · rw [beq_iff_eq.mp hdot]
    rfl

/-- What the scan of operands keeps: the open quote, the depth of brackets, the last character that
is no blank, and whether blanks follow it. -/
structure ScanState where
  quote : Option Char
  depth : Int32
  last : Char
  spaced : Bool

namespace ScanState

variable {s : ScanState}

/-- The state after a mnemonic. -/
def start : ScanState := { quote := none, depth := 0, last := 'x', spaced := false }

/-- The state after a character. -/
def after (s : ScanState) (c : Char) : ScanState :=
  if s.quote.isSome then { s with quote := Text.quoteAfter s.quote c, last := c }
  else if Text.isBlank c then { s with spaced := true }
  else { quote := Text.quoteAfter none c, depth := s.depth + Text.bracketStep c, last := c,
         spaced := false }

/-- How far the operands go from a state on. -/
def scan (isa : Isa) (s : ScanState) (cs : List Char) : Nat :=
  operandsLength isa s.quote s.depth s.last s.spaced cs

/-- An instruction may end here. -/
structure Complete (s : ScanState) : Prop where
  quote : s.quote = none
  depth : s.depth = 0
  last : endsOperand s.last = true

/-- The scan stops before a character. -/
structure Stops (isa : Isa) (s : ScanState) (c : Char) (cs : List Char) : Prop where
  complete : s.Complete
  spaced : s.spaced = true
  char : isMnemonicChar c = true
  mnemonic : isa.instructions.contains (String.ofList ((c :: cs).takeWhile isMnemonicChar)) = true

theorem not_stops_of_isBlank (h : Text.isBlank c = true) : ¬ s.Stops isa c cs := by
  intro hstops
  have hchar := hstops.char
  rw [isMnemonicChar_of_isBlank h] at hchar
  cases hchar

theorem scan_cons_of_stops (h : s.Stops isa c cs) : s.scan isa (c :: cs) = 0 := by
  have hblank : Text.isBlank c = false := by
    cases hc : Text.isBlank c with
    | false => rfl
    | true => exact absurd h (not_stops_of_isBlank hc)
  rw [scan, operandsLength, h.complete.quote, if_neg (by simp)]
  dsimp only
  rw [hblank, if_neg Bool.false_ne_true, h.spaced, h.complete.depth,
    bracketStep_of_isMnemonicChar h.char, h.complete.last, h.char, h.mnemonic]
  rfl

theorem scan_cons (h : ¬ s.Stops isa c cs) :
    s.scan isa (c :: cs) = (s.after c).scan isa cs + 1 := by
  rw [scan, operandsLength, after]
  cases hquote : s.quote with
  | some q => rfl
  | none =>
    simp only [Option.isSome_none, Bool.false_eq_true, if_false]
    cases hblank : Text.isBlank c with
    | true => rw [if_pos rfl, if_pos rfl, Text.bracketStep_of_isBlank hblank, Int32.add_zero, scan]
    | false =>
      rw [if_neg Bool.false_ne_true, if_neg Bool.false_ne_true]
      split
      · rename_i hstops
        simp only [Bool.and_eq_true, beq_iff_eq] at hstops
        obtain ⟨⟨⟨⟨hspaced, hdepth⟩, hlast⟩, hchar⟩, hmnemonic⟩ := hstops
        rw [bracketStep_of_isMnemonicChar hchar, Int32.add_zero] at hdepth
        exact absurd ⟨⟨hquote, hdepth, hlast⟩, hspaced, hchar, hmnemonic⟩ h
      · rfl

theorem scan_le (isa : Isa) (s : ScanState) (cs : List Char) : s.scan isa cs ≤ cs.length := by
  induction cs generalizing s with
  | nil => exact Nat.le_refl 0
  | cons c cs ih =>
    by_cases h : s.Stops isa c cs
    · rw [scan_cons_of_stops h]
      exact Nat.zero_le _
    · rw [scan_cons h, List.length_cons]
      exact Nat.succ_le_succ (ih _)

/-- A text that the scan reads to its end may be followed by something that belongs to no mnemonic.
The scan goes on from the state that the text leaves. -/
theorem scan_append (hd : isMnemonicChar d = false) (h : s.scan isa a = a.length) (b : List Char) :
    s.scan isa (a ++ d :: b) = a.length + (a.foldl after s).scan isa (d :: b) := by
  induction a generalizing s with
  | nil => rw [List.nil_append, List.length_nil, Nat.zero_add, List.foldl_nil]
  | cons c a ih =>
    have hgoes : ¬ s.Stops isa c a := by
      intro hstops
      rw [scan_cons_of_stops hstops] at h
      cases h
    -- The words of the text end where it does, so the scan meets no other mnemonics.
    have hgoes' : ¬ s.Stops isa c (a ++ d :: b) := by
      rintro ⟨hcomplete, hspaced, hchar, hmnemonic⟩
      rw [← List.cons_append, Text.takeWhile_append_cons hd] at hmnemonic
      exact hgoes ⟨hcomplete, hspaced, hchar, hmnemonic⟩
    rw [scan_cons hgoes, List.length_cons, Nat.add_right_cancel_iff] at h
    rw [List.cons_append, scan_cons hgoes', ih h, List.length_cons, List.foldl_cons]
    omega

theorem scan_blanks (hgap : ∀ c ∈ gap, Text.isBlank c = true) (s : ScanState) (rest : List Char) :
    s.scan isa (gap ++ rest) = gap.length + (gap.foldl after s).scan isa rest := by
  induction gap generalizing s with
  | nil => rw [List.nil_append, List.length_nil, Nat.zero_add, List.foldl_nil]
  | cons c gap ih =>
    obtain ⟨hc, hgap⟩ := List.forall_mem_cons.mp hgap
    rw [List.cons_append, scan_cons (not_stops_of_isBlank hc), ih hgap, List.length_cons,
      List.foldl_cons]
    omega

theorem quote_after (s : ScanState) (c : Char) : (s.after c).quote = Text.quoteAfter s.quote c := by
  unfold after
  cases hquote : s.quote with
  | some q => rfl
  | none =>
    rw [if_neg (by simp)]
    split
    · rename_i hblank
      rw [Text.quoteAfter_none (Text.isQuote_of_isBlank hblank)]
    · rfl

theorem quote_foldl (s : ScanState) (cs : List Char) :
    (cs.foldl after s).quote = cs.foldl Text.quoteAfter s.quote := by
  induction cs generalizing s with
  | nil => rfl
  | cons c cs ih => rw [List.foldl_cons, List.foldl_cons, ih, quote_after]

/-- Blanks change nothing but that there are blanks, if no quote is open. -/
theorem foldl_blanks (hgap : ∀ c ∈ gap, Text.isBlank c = true) (hne : gap ≠ [])
    (h : s.quote = none) : gap.foldl after s = { s with spaced := true } := by
  have hafter {s : ScanState} {c : Char} (h : s.quote = none) (hc : Text.isBlank c = true) :
      s.after c = { s with spaced := true } := by
    rw [after, h, if_neg (by simp), if_pos hc]
  induction gap generalizing s with
  | nil => exact absurd rfl hne
  | cons c gap ih =>
    obtain ⟨hc, hgap⟩ := List.forall_mem_cons.mp hgap
    rw [List.foldl_cons, hafter h hc]
    cases gap with
    | nil => rfl
    | cons d gap => exact ih hgap (List.cons_ne_nil d gap) h

/-- An open quote stays open. -/
theorem quote_foldl_blanks (hgap : ∀ c ∈ gap, Text.isBlank c = true) {q : Char}
    (hq : Text.isQuote q = true) (h : s.quote = some q) : (gap.foldl after s).quote = some q := by
  rw [quote_foldl, h]
  induction gap with
  | nil => rfl
  | cons c gap ih =>
    obtain ⟨hc, hgap⟩ := List.forall_mem_cons.mp hgap
    have hne : (c == q) = false := by
      refine beq_false_of_ne ?_
      rintro rfl
      rw [Text.isQuote_of_isBlank hc] at hq
      cases hq
    rw [List.foldl_cons, Text.quoteAfter, hne, if_neg Bool.false_ne_true, ih hgap]

/-- The scan stops before a mnemonic that follows blanks exactly if the instruction may end before
them. -/
theorem scan_gap (hopen : Text.IsOpen s.quote) (hgap : ∀ c ∈ gap, Text.isBlank c = true)
    (hne : gap ≠ []) (hchar : isMnemonicChar c = true)
    (hmnemonic : isa.instructions.contains
      (String.ofList ((c :: cs).takeWhile isMnemonicChar)) = true) :
    s.scan isa (gap ++ c :: cs) = gap.length ↔ s.Complete := by
  rw [scan_blanks hgap]
  constructor
  · intro h
    have hstops : (gap.foldl after s).Stops isa c cs := by
      by_contra hgoes
      rw [scan_cons hgoes] at h
      omega
    have hquote : s.quote = none := by
      cases hquote : s.quote with
      | none => rfl
      | some q =>
        have hkept := quote_foldl_blanks hgap (hopen q hquote) hquote
        rw [hstops.complete.quote] at hkept
        cases hkept
    have hcomplete := hstops.complete
    rw [foldl_blanks hgap hne hquote] at hcomplete
    exact ⟨hcomplete.quote, hcomplete.depth, hcomplete.last⟩
  · intro h
    have hstops : Stops isa { s with spaced := true } c cs :=
      ⟨⟨h.quote, h.depth, h.last⟩, rfl, hchar, hmnemonic⟩
    rw [foldl_blanks hgap hne h.quote, scan_cons_of_stops hstops, Nat.add_zero]

end ScanState

/-! ## Complete texts -/

/-- The depth of brackets after a text. Brackets in quotes do not count. -/
def bracketDepth (quote : Option Char) : List Char → Int32
  | [] => 0
  | c :: cs =>
    (if quote.isSome then 0 else Text.bracketStep c) + bracketDepth (Text.quoteAfter quote c) cs

/-- An instruction may end with a text: all quotes and brackets are closed, and the text is a
mnemonic alone or ends with a character that ends operands. -/
structure IsComplete (t : List Char) : Prop where
  closed : t.foldl Text.quoteAfter none = none
  balanced : bracketDepth none t = 0
  last : (∀ c ∈ t, isMnemonicChar c = true) ∨ ∃ c ∈ t.getLast?, endsOperand c = true

theorem isComplete_iff :
    IsComplete t ↔ t.foldl Text.quoteAfter none = none ∧ bracketDepth none t = 0 ∧
    (t.all isMnemonicChar = true ∨ t.getLast?.any endsOperand = true) := by
  rw [List.all_eq_true, Option.any_eq_true]
  exact ⟨fun ⟨hclosed, hbalanced, hlast⟩ => ⟨hclosed, hbalanced, hlast⟩,
    fun ⟨hclosed, hbalanced, hlast⟩ => ⟨hclosed, hbalanced, hlast⟩⟩

instance : Decidable (IsComplete t) := decidable_of_iff' _ isComplete_iff

theorem bracketDepth_dropWhile (t : List Char) :
    bracketDepth none (t.dropWhile isMnemonicChar) = bracketDepth none t := by
  induction t with
  | nil => rfl
  | cons c t ih =>
    cases hc : isMnemonicChar c with
    | false => rw [List.dropWhile_cons_of_neg (by rw [hc]; exact Bool.false_ne_true)]
    | true =>
      rw [List.dropWhile_cons_of_pos hc, ih, bracketDepth, bracketStep_of_isMnemonicChar hc,
        Text.quoteAfter_none (isQuote_of_isMnemonicChar hc)]
      simp

namespace ScanState

variable {s : ScanState}

theorem depth_foldl (s : ScanState) (cs : List Char) :
    (cs.foldl after s).depth = s.depth + bracketDepth s.quote cs := by
  induction cs generalizing s with
  | nil => exact (Int32.add_zero _).symm
  | cons c cs ih =>
    have hdepth : (s.after c).depth =
        s.depth + if s.quote.isSome then 0 else Text.bracketStep c := by
      unfold after
      cases s.quote with
      | some q => exact (Int32.add_zero _).symm
      | none =>
        simp only [Option.isSome_none, Bool.false_eq_true, if_false]
        split
        · rename_i hblank
          rw [Text.bracketStep_of_isBlank hblank, Int32.add_zero]
        · rfl
    rw [List.foldl_cons, ih, hdepth, quote_after, bracketDepth, Int32.add_assoc]

theorem last_after (h : Text.isBlank c = false) (s : ScanState) : (s.after c).last = c := by
  unfold after
  split
  · rfl
  · rw [h, if_neg Bool.false_ne_true]

/-- The state after the operands of a text tells whether an instruction may end with it. -/
theorem complete_iff (ht : Text.trimEnd t = t) :
    ((t.dropWhile isMnemonicChar).foldl after start).Complete ↔ IsComplete t := by
  have hlast : endsOperand ((t.dropWhile isMnemonicChar).foldl after start).last = true ↔
      (∀ c ∈ t, isMnemonicChar c = true) ∨ ∃ c ∈ t.getLast?, endsOperand c = true := by
    rcases List.eq_nil_or_concat' (t.dropWhile isMnemonicChar) with hnil | ⟨ops, d, hops⟩
    · rw [hnil]
      exact ⟨fun _ => .inl (List.dropWhile_eq_nil_iff.mp hnil), fun _ => rfl⟩
    · have ht' := List.takeWhile_append_dropWhile (p := isMnemonicChar) (l := t)
      rw [hops, ← List.append_assoc] at ht'
      have hd : Text.isBlank d = false := by
        have hend : Text.trimEnd [d] = [d] := Text.trimEnd_of_append (ht'.symm ▸ ht)
        cases hblank : Text.isBlank d with
        | false => rfl
        | true => simp [Text.trimEnd, hblank] at hend
      have hmore : ¬ ∀ c ∈ t, isMnemonicChar c = true := fun hall => by
        rw [List.dropWhile_eq_nil_iff.mpr hall] at hops
        simp at hops
      rw [hops, List.foldl_concat, last_after hd, ← ht', List.getLast?_concat, ht']
      simp [hmore]
  have hquote : ((t.dropWhile isMnemonicChar).foldl after start).quote =
      t.foldl Text.quoteAfter none := by
    rw [quote_foldl]
    exact Text.foldl_quoteAfter_dropWhile (fun _ => isQuote_of_isMnemonicChar) t
  have hdepth : ((t.dropWhile isMnemonicChar).foldl after start).depth = bracketDepth none t := by
    rw [depth_foldl, ← bracketDepth_dropWhile]
    exact Int32.zero_add _
  constructor
  · rintro ⟨hclosed, hbalanced, hends⟩
    exact ⟨hquote ▸ hclosed, hdepth ▸ hbalanced, hlast.mp hends⟩
  · rintro ⟨hclosed, hbalanced, hends⟩
    exact ⟨hquote.trans hclosed, hdepth.trans hbalanced, hlast.mpr hends⟩

end ScanState

end Retarget.Reader
