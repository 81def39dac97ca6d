import Retarget.Proofs.Statement.Constants
import Retarget.Proofs.Statement.Literals
import Retarget.Proofs.Statement.Reader

/-!
# Several instructions on a line

An instruction is followed by another one on the same line. It is read as if it stood alone exactly
if its text is complete. So a list of instructions may stand on one line, if each one but the last
is complete.

* `Reader.ReadsInstruction`: texts that hold one instruction;
* `Reader.ReadsInstruction.readStatements_append`,
  `Reader.ReadsInstruction.readStatements_append_ne`: an instruction before others;
* `Reader.readStatements_joined`: all instructions of a line;
* `Reader.splitComment_joined`, `Reader.settle_joined`: comments and symbols of joined lines.
-/

namespace Retarget

namespace Reader

variable {isa : Isa} {r : Reader} {c d : Char} {a b cs gap rest t : List Char}

/-! ## One instruction -/

/-- A text without blanks around it that is read as one instruction. -/
structure ReadsInstruction (r : Reader) (t : List Char) (e : Encoding) : Prop where
  trimmed : Text.trim t = t
  head : ∃ c a, t = c :: a ∧ c ≠ '.' ∧ isMnemonicChar c = true
  label : labelName? t = none
  constant : constantParts? t = none
  mnemonic : r.env.isa.instructions.contains (String.ofList (t.takeWhile isMnemonicChar)) = true
  /-- The operands are scanned to the end. -/
  whole : ScanState.start.scan r.env.isa (t.dropWhile isMnemonicChar) =
    (t.dropWhile isMnemonicChar).length
  encoded : r.env.isa.encode r.env.zones r.line t = .ok e

theorem readStatement_of_mnemonic (hc : c ≠ '.') (hchar : isMnemonicChar c = true)
    (hlabel : labelName? (c :: a) = none) (hconstant : constantParts? (c :: a) = none) :
    r.readStatement (c :: a) = r.readInstruction (c :: a) := by
  have hquote : c ≠ '"' := by
    rintro rfl
    cases hchar
  unfold readStatement
  rw [hlabel]
  dsimp only
  rw [hconstant]
  dsimp only
  rw [if_neg (by simpa using hc), if_neg (by simp [hquote])]

theorem readInstruction_of_mnemonic (hne : cs.takeWhile isMnemonicChar ≠ [])
    (hword : r.env.isa.instructions.contains (String.ofList (cs.takeWhile isMnemonicChar)) = true)
    {n : Nat} (hn : n = (cs.takeWhile isMnemonicChar).length +
      ScanState.start.scan r.env.isa (cs.dropWhile isMnemonicChar)) :
    r.readInstruction cs =
      (r.env.isa.encode r.env.zones r.line (Text.trim (cs.take n))).map fun e =>
        (Text.trim (cs.take n), .instruction e, n) := by
  have hempty : (cs.takeWhile isMnemonicChar).isEmpty = false := List.isEmpty_eq_false_iff.mpr hne
  subst hn
  unfold readInstruction
  dsimp only
  rw [hword, hempty, Text.drop_length_takeWhile]
  dsimp only [ScanState.scan, ScanState.start]
  cases r.env.isa.encode r.env.zones r.line _ <;> rfl

/-- Instructions start with a mnemonic. -/
theorem mnemonic_of_readInstruction {text : List Char} {statement : Statement} {n : Nat}
    (h : r.readInstruction cs = .ok (text, statement, n)) :
    cs.takeWhile isMnemonicChar ≠ [] ∧
      r.env.isa.instructions.contains (String.ofList (cs.takeWhile isMnemonicChar)) = true := by
  unfold readInstruction at h
  dsimp only at h
  split at h
  · cases h
  · rename_i hword
    simp only [Bool.or_eq_true, Bool.not_eq_true', not_or, Bool.not_eq_false, Bool.not_eq_true,
      List.isEmpty_eq_false_iff] at hword
    exact hword

/-- Only the reader of instructions gives instructions. -/
theorem readInstruction_of_readStatement {text : List Char} {e : Encoding} {n : Nat}
    (h : r.readStatement cs = .ok (text, .instruction e, n)) :
    labelName? cs = none ∧ constantParts? cs = none ∧ cs.head? ≠ some '.' ∧
      r.readInstruction cs = .ok (text, .instruction e, n) := by
  unfold readStatement at h
  split at h
  · obtain ⟨_, -, h⟩ := bind_eq_ok.mp h
    cases pure_eq_ok.mp h
  · rename_i hlabel
    split at h
    · obtain ⟨_, -, h⟩ := bind_eq_ok.mp h
      obtain ⟨_, -, h⟩ := bind_eq_ok.mp h
      obtain ⟨_, -, h⟩ := bind_eq_ok.mp h
      cases pure_eq_ok.mp h
    · rename_i hconstant
      split at h
      · obtain ⟨s, hs, h⟩ := bind_eq_ok.mp h
        cases pure_eq_ok.mp h
        exact absurd rfl (r.ne_instruction_readDirective cs _ hs e)
      · rename_i hdot
        split at h
        · split at h
          · cases h
          · dsimp only at h
            split at h
            · cases h
            · cases pure_eq_ok.mp h
        · exact ⟨hlabel, hconstant, by simpa using hdot, h⟩

theorem readStatements_of_readStatement {text : List Char} {statement : Statement} {n : Nat}
    (hne : cs ≠ []) (hn : 0 < n) (h : r.readStatement cs = .ok (text, statement, n)) :
    r.readStatements cs =
      (r.readStatements (Text.trimStart (cs.drop n))).map fun more =>
        (text, statement) :: more := by
  obtain ⟨c, rest, rfl⟩ := List.exists_cons_of_ne_nil hne
  obtain ⟨n, rfl⟩ := Nat.exists_eq_succ_of_ne_zero hn.ne'
  rw [readStatements, h, ok_bind]
  dsimp only
  rw [Nat.succ_sub_one, List.drop_succ_cons]
  cases r.readStatements (Text.trimStart (rest.drop n)) <;> rfl

theorem exists_of_readStatements_cons {text : List Char} {statement : Statement}
    {more : List (List Char × Statement)}
    (h : r.readStatements cs = .ok ((text, statement) :: more)) :
    ∃ n, r.readStatement cs = .ok (text, statement, n) := by
  cases cs with
  | nil =>
    rw [readStatements] at h
    cases h
  | cons c rest =>
    rw [readStatements] at h
    obtain ⟨⟨text', statement', n⟩, hread, h⟩ := bind_eq_ok.mp h
    obtain ⟨_, -, h⟩ := bind_eq_ok.mp h
    cases pure_eq_ok.mp h
    exact ⟨n, hread⟩

theorem eq_nil_of_readStatements (h : r.readStatements cs = .ok []) : cs = [] := by
  cases cs with
  | nil => rfl
  | cons c rest =>
    rw [readStatements] at h
    obtain ⟨_, -, h⟩ := bind_eq_ok.mp h
    obtain ⟨_, -, h⟩ := bind_eq_ok.mp h
    cases pure_eq_ok.mp h

/-- A text that gives one instruction. -/
theorem readsInstruction_of_readStatements {text : List Char} {e : Encoding} (ht : Text.trim t = t)
    (h : r.readStatements t = .ok [(text, .instruction e)]) :
    text = t ∧ r.ReadsInstruction t e := by
  cases t with
  | nil =>
    rw [readStatements] at h
    cases h
  | cons c a =>
    rw [readStatements] at h
    obtain ⟨⟨text', statement, n⟩, hread, h⟩ := bind_eq_ok.mp h
    obtain ⟨more, hmore, h⟩ := bind_eq_ok.mp h
    cases pure_eq_ok.mp h
    obtain ⟨hlabel, hconstant, hdot, hread⟩ := readInstruction_of_readStatement hread
    obtain ⟨hne, hword⟩ := mnemonic_of_readInstruction hread
    rw [readInstruction_of_mnemonic hne hword rfl] at hread
    obtain ⟨e', hencode, hread⟩ := map_eq_ok.mp hread
    simp only [Prod.mk.injEq, Statement.instruction.injEq] at hread
    obtain ⟨rfl, rfl, hn⟩ := hread
    have hparts : (c :: a).takeWhile isMnemonicChar ++ (c :: a).dropWhile isMnemonicChar = c :: a :=
      List.takeWhile_append_dropWhile
    have hlength := congrArg List.length hparts
    rw [List.length_append] at hlength
    have hpos : 0 < n := by
      have := List.length_pos_of_ne_nil hne
      omega
    -- What is left is blank, and the text has no blanks at its end.
    have hrest : (c :: a).drop n = [] := by
      by_contra hrest
      have hend : Text.trimEnd (c :: a) = c :: a := Text.trimEnd_of_trim ht
      rw [← List.take_append_drop n (c :: a)] at hend
      obtain ⟨m, rfl⟩ := Nat.exists_eq_succ_of_ne_zero hpos.ne'
      exact Text.trimStart_ne_nil (Text.trimEnd_of_append hend) hrest
        (eq_nil_of_readStatements hmore)
    have hle : (c :: a).length ≤ n := List.drop_eq_nil_iff.mp hrest
    have hscan := ScanState.scan_le r.env.isa .start ((c :: a).dropWhile isMnemonicChar)
    rw [hn, List.take_of_length_le hle, ht] at hencode ⊢
    refine ⟨rfl, ht, ⟨c, a, rfl, by simpa using hdot, ?_⟩, hlabel, hconstant, hword,
      by omega, hencode⟩
    cases hc : isMnemonicChar c with
    | true => rfl
    | false => exact absurd (List.takeWhile_cons_of_neg (by rw [hc]; exact Bool.false_ne_true)) hne

theorem ReadsInstruction.word_ne_nil {e : Encoding} (h : r.ReadsInstruction t e) :
    t.takeWhile isMnemonicChar ≠ [] := by
  obtain ⟨c, a, rfl, -, hchar⟩ := h.head
  rw [List.takeWhile_cons_of_pos hchar]
  exact List.cons_ne_nil _ _

theorem ReadsInstruction.length_word {e : Encoding} (h : r.ReadsInstruction t e) :
    0 < (t.takeWhile isMnemonicChar).length ∧
      (t.takeWhile isMnemonicChar).length + (t.dropWhile isMnemonicChar).length = t.length := by
  refine ⟨List.length_pos_of_ne_nil h.word_ne_nil, ?_⟩
  rw [← List.length_append, List.takeWhile_append_dropWhile]

theorem ReadsInstruction.readStatements_eq {e : Encoding} (h : r.ReadsInstruction t e) :
    r.readStatements t = .ok [(t, .instruction e)] := by
  obtain ⟨hpos, hlength⟩ := h.length_word
  have hread : r.readStatement t = .ok (t, .instruction e, t.length) := by
    obtain ⟨c, a, rfl, hdot, hchar⟩ := h.head
    rw [readStatement_of_mnemonic hdot hchar h.label h.constant,
      readInstruction_of_mnemonic h.word_ne_nil h.mnemonic rfl, h.whole, hlength,
      List.take_length, h.trimmed, h.encoded]
    rfl
  have hne : t ≠ [] := by
    rintro rfl
    cases hpos
  rw [readStatements_of_readStatement hne (by omega) hread, List.drop_length, Text.trimStart,
    List.dropWhile_nil, readStatements]
  rfl

/-! ## An instruction before others -/

/-- A text that starts with an instruction and cannot go on with the value of a constant. -/
def StartsInstruction (isa : Isa) (code : List Char) : Prop :=
  ∃ d next, code = d :: next ∧ isMnemonicChar d = true ∧ startsEqu code = false ∧
    isa.instructions.contains (String.ofList (code.takeWhile isMnemonicChar)) = true

namespace ReadsInstruction

variable {e : Encoding} {code : List Char}

/-- The state after the operands of an instruction. -/
theorem scan_append (h : r.ReadsInstruction t e) (hgap : ∀ c ∈ gap, Text.isBlank c = true)
    (hne : gap ≠ []) (hcode : StartsInstruction r.env.isa code) :
    t.length + gap.length ≤ (t.takeWhile isMnemonicChar).length +
        ScanState.start.scan r.env.isa ((t ++ (gap ++ code)).dropWhile isMnemonicChar) ∧
      ((t.takeWhile isMnemonicChar).length +
        ScanState.start.scan r.env.isa ((t ++ (gap ++ code)).dropWhile isMnemonicChar) =
          t.length + gap.length ↔ IsComplete t) := by
  obtain ⟨b, gap, rfl⟩ := List.exists_cons_of_ne_nil hne
  have hb := isMnemonicChar_of_isBlank (hgap b List.mem_cons_self)
  have hend := Text.trimEnd_of_trim h.trimmed
  obtain ⟨-, hlength⟩ := h.length_word
  obtain ⟨d, next, rfl, hchar, -, hmnemonic⟩ := hcode
  have hscan : ScanState.start.scan r.env.isa
      ((t ++ (b :: gap ++ d :: next)).dropWhile isMnemonicChar) =
      (t.dropWhile isMnemonicChar).length +
        ((t.dropWhile isMnemonicChar).foldl ScanState.after .start).scan r.env.isa
          (b :: gap ++ d :: next) := by
    rw [List.cons_append, Text.dropWhile_append_cons hb]
    exact ScanState.scan_append hb h.whole _
  have hopen : Text.IsOpen ((t.dropWhile isMnemonicChar).foldl ScanState.after .start).quote := by
    rw [ScanState.quote_foldl]
    exact Text.IsOpen.none.foldl _
  rw [hscan, ← Nat.add_assoc, hlength, Nat.add_left_cancel_iff, Nat.add_le_add_iff_left,
    ScanState.scan_gap hopen hgap hne hchar hmnemonic, ScanState.complete_iff hend,
    ScanState.scan_blanks hgap]
  exact ⟨Nat.le_add_right _ _, Iff.rfl⟩

theorem readStatement_append (h : r.ReadsInstruction t e) (hopens : opensConstant t = false)
    (hgap : ∀ c ∈ gap, Text.isBlank c = true) (hne : gap ≠ [])
    (hcode : StartsInstruction r.env.isa code) :
    ∃ n, (t.length + gap.length ≤ n ∧ (n = t.length + gap.length ↔ IsComplete t)) ∧
      r.readStatement (t ++ (gap ++ code)) =
        (r.env.isa.encode r.env.zones r.line (Text.trim ((t ++ (gap ++ code)).take n))).map fun e =>
          (Text.trim ((t ++ (gap ++ code)).take n), .instruction e, n) := by
  refine ⟨_, h.scan_append hgap hne hcode, ?_⟩
  obtain ⟨c, a, rfl, hdot, hc⟩ := h.head
  obtain ⟨d, next, rfl, hchar, hequ, -⟩ := hcode
  obtain ⟨b, gap, rfl⟩ := List.exists_cons_of_ne_nil hne
  have hb := hgap b List.mem_cons_self
  have hword : (c :: a ++ (b :: gap ++ d :: next)).takeWhile isMnemonicChar =
      (c :: a).takeWhile isMnemonicChar :=
    Text.takeWhile_append_cons (isMnemonicChar_of_isBlank hb)
  have hlabel : labelName? (c :: a ++ (b :: gap ++ d :: next)) = none :=
    labelName?_append hdot hb h.label _
  have hconstant := constantParts?_append hdot h.trimmed h.constant hopens hgap hne hchar hequ
  have hread : r.readStatement (c :: a ++ (b :: gap ++ d :: next)) =
      r.readInstruction (c :: a ++ (b :: gap ++ d :: next)) :=
    readStatement_of_mnemonic hdot hc hlabel hconstant
  rw [hread]
  exact readInstruction_of_mnemonic (hword ▸ h.word_ne_nil) (hword ▸ h.mnemonic) (by rw [hword])

/-- An instruction before another one, if it may end there. -/
theorem readStatements_append (h : r.ReadsInstruction t e) (hopens : opensConstant t = false)
    (hgap : ∀ c ∈ gap, Text.isBlank c = true) (hne : gap ≠ [])
    (hcode : StartsInstruction r.env.isa code) (hcomplete : IsComplete t) :
    r.readStatements (t ++ (gap ++ code)) = (r.readStatements code).map fun more =>
      (t, .instruction e) :: more := by
  obtain ⟨n, ⟨-, hn⟩, hread⟩ := h.readStatement_append hopens hgap hne hcode
  have hlength := hn.mpr hcomplete
  have hpos := List.length_pos_of_ne_nil hne
  have htake : Text.trim ((t ++ (gap ++ code)).take n) = t := by
    rw [hlength, ← List.append_assoc, ← List.length_append, List.take_left,
      ← Text.trimStart_trimEnd, Text.trimEnd_append_blanks hgap, Text.trimStart_trimEnd, h.trimmed]
  have hdrop : Text.trimStart ((t ++ (gap ++ code)).drop n) = code := by
    obtain ⟨d, next, rfl, hchar, -, -⟩ := hcode
    rw [hlength, ← List.append_assoc, ← List.length_append, List.drop_left]
    exact Text.trimStart_cons (isBlank_of_isMnemonicChar hchar) next
  rw [htake, h.encoded] at hread
  rw [readStatements_of_readStatement (by simp [hne]) (by omega) hread, hdrop]

/-- An instruction before another one is not read as it is, if it may not end there. -/
theorem readStatements_append_ne (h : r.ReadsInstruction t e) (hopens : opensConstant t = false)
    (hgap : ∀ c ∈ gap, Text.isBlank c = true) (hne : gap ≠ [])
    (hcode : StartsInstruction r.env.isa code) (hcomplete : ¬ IsComplete t) (s : Statement)
    (more : List (List Char × Statement)) :
    r.readStatements (t ++ (gap ++ code)) ≠ .ok ((t, s) :: more) := by
  obtain ⟨n, ⟨hle, hn⟩, hread⟩ := h.readStatement_append hopens hgap hne hcode
  have hlonger : t.length + gap.length < n :=
    Nat.lt_of_le_of_ne hle fun heq => hcomplete (hn.mp heq.symm)
  intro hstatements
  have htext : Text.trim ((t ++ (gap ++ code)).take n) = t := by
    obtain ⟨n', hfirst⟩ := exists_of_readStatements_cons hstatements
    obtain ⟨e', -, hfirst⟩ := map_eq_ok.mp (hread.symm.trans hfirst)
    exact (Prod.mk.inj hfirst).1
  -- The text reaches into the next instruction, so it is longer than this one.
  obtain ⟨c, a, rfl, -, hc⟩ := h.head
  obtain ⟨d, next, rfl, hchar, -, -⟩ := hcode
  obtain ⟨k, rfl⟩ := Nat.exists_eq_add_of_lt hlonger
  have htake : (c :: a ++ (gap ++ d :: next)).take ((c :: a).length + gap.length + k + 1) =
      c :: (a ++ gap ++ d :: next.take k) := by
    rw [← List.append_assoc, ← List.length_append, Nat.add_assoc, List.take_length_add_append]
    simp
  rw [htake, Text.trim_cons (isBlank_of_isMnemonicChar hc),
    Text.trimEnd_append_cons (isBlank_of_isMnemonicChar hchar)] at htext
  have hlength := congrArg List.length htext
  simp only [List.length_cons, List.length_append] at hlength
  omega

end ReadsInstruction

/-! ## All instructions of a line -/

/-- An instruction that makes no constant with what stands around it. -/
structure Joinable (r : Reader) (t : List Char) (e : Encoding) : Prop where
  reads : r.ReadsInstruction t e
  opens : opensConstant t = false
  starts : startsEqu t = false

theorem Joinable.startsInstruction {e : Encoding} (h : r.Joinable t e)
    (hrest : ∀ c ∈ rest.head?, Text.isBlank c = true) :
    StartsInstruction r.env.isa (t ++ rest) := by
  have hword : (t ++ rest).takeWhile isMnemonicChar = t.takeWhile isMnemonicChar := by
    cases rest with
    | nil => rw [List.append_nil]
    | cons d rest => exact Text.takeWhile_append_cons (isMnemonicChar_of_isBlank (hrest d rfl))
  obtain ⟨c, a, rfl, -, hchar⟩ := h.reads.head
  refine ⟨c, a ++ rest, rfl, hchar, ?_, ?_⟩
  · rw [startsEqu, hword]
    exact h.starts
  · rw [hword]
    exact h.reads.mnemonic

/-- Texts with a blank between each two of them. -/
def joined (codes : List (List Char)) : List Char := [' '].intercalate codes

theorem joined_singleton (code : List Char) : joined [code] = code := by
  simp [joined]

theorem joined_cons_cons (code code' : List Char) (codes : List (List Char)) :
    joined (code :: code' :: codes) = code ++ ' ' :: joined (code' :: codes) := by
  simp [joined, List.intercalate]

/-- What stands before the next instructions, and the blanks between. -/
theorem exists_gap_joined {code code' : List Char} {codes : List (List Char)} {e : Encoding}
    (h : r.Joinable (Text.trim code) e)
    (hrest : StartsInstruction r.env.isa (Text.trim (joined (code' :: codes)))) :
    ∃ gap, gap ≠ [] ∧ (∀ c ∈ gap, Text.isBlank c = true) ∧
      Text.trim (joined (code :: code' :: codes)) =
        Text.trim code ++ (gap ++ Text.trim (joined (code' :: codes))) := by
  obtain ⟨c, a, hc, -⟩ := h.reads.head
  obtain ⟨d, next, hnext, -⟩ := hrest
  rw [joined_cons_cons]
  exact Text.exists_gap (by rw [hc]; exact List.cons_ne_nil c a)
    (by rw [hnext]; exact List.cons_ne_nil d next)

theorem startsInstruction_joined {p : List Char × Encoding} {parts : List (List Char × Encoding)}
    (h : ∀ q ∈ p :: parts, r.Joinable (Text.trim q.1) q.2) :
    StartsInstruction r.env.isa (Text.trim (joined ((p :: parts).map Prod.fst))) := by
  induction parts generalizing p with
  | nil =>
    rw [List.map_cons, List.map_nil, joined_singleton, ← List.append_nil (Text.trim p.1)]
    exact (h p List.mem_cons_self).startsInstruction (by simp)
  | cons q parts ih =>
    obtain ⟨hp, hrest⟩ := List.forall_mem_cons.mp h
    obtain ⟨gap, hne, hgap, htrim⟩ := exists_gap_joined hp (ih hrest)
    rw [List.map_cons, List.map_cons, htrim]
    refine hp.startsInstruction fun c hc => ?_
    obtain ⟨b, gap, rfl⟩ := List.exists_cons_of_ne_nil hne
    cases hc
    exact hgap _ List.mem_cons_self

/-- **Instructions in a row** are read as each of them alone, exactly if each one but the last may
end. -/
theorem readStatements_joined {p : List Char × Encoding} {parts : List (List Char × Encoding)}
    (h : ∀ q ∈ p :: parts, r.Joinable (Text.trim q.1) q.2) :
    r.readStatements (Text.trim (joined ((p :: parts).map Prod.fst))) =
        .ok ((p :: parts).map fun q => (Text.trim q.1, .instruction q.2)) ↔
      ∀ q ∈ (p :: parts).dropLast, IsComplete (Text.trim q.1) := by
  induction parts generalizing p with
  | nil =>
    rw [List.map_cons, List.map_nil, joined_singleton,
      (h p List.mem_cons_self).reads.readStatements_eq]
    simp
  | cons q parts ih =>
    obtain ⟨hp, hrest⟩ := List.forall_mem_cons.mp h
    have hstarts := startsInstruction_joined hrest
    rw [List.map_cons] at hstarts
    obtain ⟨gap, hne, hgap, htrim⟩ := exists_gap_joined hp hstarts
    rw [List.dropLast_cons_of_ne_nil (List.cons_ne_nil q parts), List.forall_mem_cons, ← ih hrest,
      List.map_cons, List.map_cons, htrim, List.map_cons]
    generalize Text.trim (joined (q.1 :: parts.map Prod.fst)) = code at hstarts ⊢
    by_cases hcomplete : IsComplete (Text.trim p.1)
    · rw [hp.reads.readStatements_append hp.opens hgap hne hstarts hcomplete, map_eq_ok]
      constructor
      · rintro ⟨more, hmore, heq⟩
        exact ⟨hcomplete, (List.cons.inj heq).2 ▸ hmore⟩
      · rintro ⟨-, hmore⟩
        exact ⟨_, hmore, rfl⟩
    · have hdiffers := hp.reads.readStatements_append_ne hp.opens hgap hne hstarts hcomplete
      exact ⟨fun h => absurd h (hdiffers _ _), fun h => absurd h.1 hcomplete⟩

end Reader

/-! ## Comments and symbols -/

namespace Text

variable {a : List Char} {quote : Option Char}

/-- A comment starts after a text without one exactly where it starts in what follows, if the text
leaves no quote open. -/
theorem splitCommentFrom_append (h : (splitCommentFrom quote a).1 = a)
    (hclosed : a.foldl quoteAfter quote = none) (b : List Char) :
    splitCommentFrom quote (a ++ b) =
      (a ++ (splitCommentFrom none b).1, (splitCommentFrom none b).2) := by
  induction a generalizing quote with
  | nil =>
    obtain rfl : quote = none := hclosed
    rfl
  | cons c a ih =>
    rw [splitCommentFrom] at h
    rw [List.cons_append, splitCommentFrom]
    split at h
    · cases h
    · rename_i hcode
      rw [if_neg hcode, ih (List.cons.inj h).2 hclosed]
      rfl

end Text

namespace SymbolTable

variable {t : SymbolTable} {quote : Option Char} {cs w v : List Char}

/-- The texts of symbols leave no quotes open. -/
def ClosesQuotes (t : SymbolTable) : Prop :=
  ∀ s ∈ t, ∀ v ∈ s.value, v.toList.foldl Text.quoteAfter none = none

theorem ClosesQuotes.foldl_eq (ht : t.ClosesQuotes) (h : t.HasText w v) :
    v.foldl Text.quoteAfter none = none := by
  obtain ⟨-, s, hs, hv, -⟩ := h
  simpa using ht s (List.mem_of_find?_eq_some hs) _ hv

/-- Replacing symbols does not change what is open at the end of a text. -/
theorem foldl_substitute (ht : t.ClosesQuotes) (quote : Option Char) (cs : List Char) :
    (t.substitute quote cs).1.foldl Text.quoteAfter quote = cs.foldl Text.quoteAfter quote := by
  induction quote, cs using Text.words_induction with
  | nil quote => rw [substitute]
  | word w rest hw hrest ih =>
    have hword : ((t.replacement w).getD w).foldl Text.quoteAfter none = none := by
      cases hv : t.replacement w with
      | none => exact Text.foldl_quoteAfter hw.isQuote_eq_false
      | some v => exact ht.foldl_eq (replacement_eq_some.mp hv)
    rw [substitute_word hw hrest, List.foldl_append, List.foldl_append, hword,
      Text.foldl_quoteAfter hw.isQuote_eq_false, ih]
  | other quote c rest hc ih =>
    rw [substitute_cons hc, List.foldl_cons, List.foldl_cons, ih]

end SymbolTable

namespace Reader

variable {r : Reader} {lines : List (List Char)}

/-- Lines without comments, joined. -/
theorem splitComment_joined (hcomment : ∀ s ∈ lines, Text.splitComment s = (s, []))
    (hquotes : ∀ s ∈ lines, s.foldl Text.quoteAfter none = none) :
    Text.splitComment (joined lines) = (joined lines, []) := by
  induction lines with
  | nil => rfl
  | cons s lines ih =>
    obtain ⟨hs, hcomment⟩ := List.forall_mem_cons.mp hcomment
    obtain ⟨hclosed, hquotes⟩ := List.forall_mem_cons.mp hquotes
    cases lines with
    | nil => rwa [joined_singleton]
    | cons s' lines =>
      have hrest := ih hcomment hquotes
      have hblank (b : List Char) : Text.splitCommentFrom none (' ' :: b) =
          (' ' :: (Text.splitCommentFrom none b).1, (Text.splitCommentFrom none b).2) := rfl
      unfold Text.splitComment at hs hrest ⊢
      obtain ⟨hcode, hnone⟩ := Prod.mk.inj hrest
      rw [joined_cons_cons, Text.splitCommentFrom_append (Prod.mk.inj hs).1 hclosed, hblank]
      dsimp only
      rw [hcode, hnone]

/-- The symbols of lines are replaced in each of them on its own. -/
theorem settle_joined {t : SymbolTable} (ht : t.ClosesQuotes) {passes : Nat}
    {codes : List (List Char)} (hquotes : ∀ s ∈ lines, s.foldl Text.quoteAfter none = none)
    (hne : lines ≠ [])
    (h : List.Forall₂ (fun s code => t.settle passes s = some code) lines codes) :
    t.settle passes (joined lines) = some (joined codes) := by
  induction h with
  | nil => exact absurd rfl hne
  | cons hs hrest ih =>
    rename_i s code lines codes
    obtain ⟨hclosed, hquotes⟩ := List.forall_mem_cons.mp hquotes
    cases hrest with
    | nil => rwa [joined_singleton, joined_singleton]
    | cons hs' hrest =>
      rw [joined_cons_cons, joined_cons_cons,
        SymbolTable.settle_append_of_closed (P := fun cs => cs.foldl Text.quoteAfter none =
          none) (by rfl) (by rfl)
          (fun _ h => h) (fun cs h => (t.foldl_substitute ht none cs).trans h) hclosed hs,
        ih hquotes (List.cons_ne_nil _ _)]
      rfl

theorem readLine_eq {s code : List Char} (hs : Text.splitComment s = (s, []))
    (hcode : r.symbols.settle SymbolTable.maxPasses s = some code) :
    r.readLine s = (r.readStatements (Text.trim code)).map fun statements =>
      if statements.isEmpty then [r.item "" (String.ofList (Text.trim code)) .plain]
      else statements.map fun y => r.item "" (String.ofList y.1) y.2 := by
  have hresolve : r.symbols.resolve (String.ofList s) = .ok (String.ofList code) := by
    rw [SymbolTable.resolve_eq_ok, String.toList_ofList, String.toList_ofList, hcode]
  unfold readLine
  rw [hs]
  dsimp only
  rw [hresolve]
  simp only [Error.liftAt, Except.mapError, ok_bind, String.toList_ofList]
  cases r.readStatements (Text.trim code) with
  | error e => rfl
  | ok statements => cases statements <;> rfl

/-- How a line is read as one instruction. -/
theorem exists_of_readLine {s : List Char} {i : Item} {e : Encoding}
    (hs : Text.splitComment s = (s, [])) (h : r.readLine s = .ok [i])
    (hi : i.statement = .instruction e) :
    ∃ code, r.symbols.settle SymbolTable.maxPasses s = some code ∧
      i = r.item "" (String.ofList (Text.trim code)) (.instruction e) ∧
        r.ReadsInstruction (Text.trim code) e := by
  cases hcode : r.symbols.settle SymbolTable.maxPasses s with
  | none =>
    obtain ⟨error, herror, -⟩ := readLine_of_cycle hs hcode
    rw [herror] at h
    cases h
  | some code =>
    rw [readLine_eq hs hcode] at h
    obtain ⟨statements, hread, h⟩ := map_eq_ok.mp h
    split at h
    · cases h
      cases hi
    · cases statements with
      | nil => cases h
      | cons y statements =>
        obtain ⟨rfl, hnil⟩ := List.cons.inj h
        cases List.map_eq_nil_iff.mp hnil
        obtain ⟨text, statement⟩ := y
        obtain rfl : statement = .instruction e := hi
        obtain ⟨rfl, hreads⟩ := readsInstruction_of_readStatements (Text.trim_trim code) hread
        exact ⟨code, rfl, rfl, hreads⟩

theorem item_injective (r : Reader) :
    Function.Injective fun y : List Char × Statement => r.item "" (String.ofList y.1) y.2 := by
  intro y z h
  have htext : String.ofList y.1 = String.ofList z.1 := congrArg Item.text h
  have hstatement : y.2 = z.2 := congrArg Item.statement h
  exact Prod.ext (String.ofList_injective htext) hstatement

theorem readLine_eq_ok_iff {s code : List Char} {p : List Char × Encoding}
    {parts : List (List Char × Encoding)} (hs : Text.splitComment s = (s, []))
    (hcode : r.symbols.settle SymbolTable.maxPasses s = some code) :
    r.readLine s = .ok ((p :: parts).map
      fun q => r.item "" (String.ofList (Text.trim q.1)) (.instruction q.2)) ↔
      r.readStatements (Text.trim code) =
        .ok ((p :: parts).map fun q => (Text.trim q.1, .instruction q.2)) := by
  rw [readLine_eq hs hcode, map_eq_ok]
  constructor
  · rintro ⟨statements, hread, h⟩
    split at h
    · cases congrArg Item.statement (List.cons.inj h).1
    · rw [hread]
      refine congrArg Except.ok (List.map_injective_iff.mpr r.item_injective ?_)
      rw [List.map_map]
      exact h
  · intro hread
    refine ⟨_, hread, (if_neg (by simp)).trans ?_⟩
    rw [List.map_map]
    rfl

/-- The codes and the encodings of lines that hold one instruction each. -/
theorem exists_parts {items : List Item}
    (hread : List.Forall₂
      (fun s i => r.readLine s = .ok [i] ∧ ∃ e, i.statement = .instruction e) lines items)
    (hcomment : ∀ s ∈ lines, Text.splitComment s = (s, []))
    (hconstant : ∀ i ∈ items, opensConstant i.text.toList = false ∧
      startsEqu i.text.toList = false) :
    ∃ parts : List (List Char × Encoding), (∀ q ∈ parts, r.Joinable (Text.trim q.1) q.2) ∧
      List.Forall₂ (fun s code => r.symbols.settle SymbolTable.maxPasses s =
        some code) lines (parts.map Prod.fst) ∧
      items = parts.map fun q => r.item "" (String.ofList (Text.trim q.1)) (.instruction q.2) := by
  induction hread with
  | nil => exact ⟨[], by simp, .nil, rfl⟩
  | cons hs _ ih =>
    obtain ⟨hline, hcomment⟩ := List.forall_mem_cons.mp hcomment
    obtain ⟨hitem, hconstant⟩ := List.forall_mem_cons.mp hconstant
    obtain ⟨parts, hjoinable, hcodes, rfl⟩ := ih hcomment hconstant
    obtain ⟨hread, e, he⟩ := hs
    obtain ⟨code, hcode, rfl, hreads⟩ := exists_of_readLine hline hread he
    have hfirst : r.Joinable (Text.trim code) e := by
      have htext : (r.item "" (String.ofList (Text.trim code)) (.instruction e)).text.toList =
          Text.trim code :=
        String.toList_ofList
      rw [htext] at hitem
      exact ⟨hreads, hitem.1, hitem.2⟩
    exact ⟨(code, e) :: parts, List.forall_mem_cons.mpr ⟨hfirst, hjoinable⟩,
      .cons hcode hcodes, rfl⟩

end Reader

/-- **Several instructions on a line.** Let each of some lines be read as one instruction, and let
the lines have no comments, leave no quotes open and make no constants with each other. On one line,
with a blank between each two of them, they are read as the same instructions in the same order,
exactly if each one but the last may end where it does: its brackets are closed, and it is a
mnemonic alone or ends with a name, a number, a quote or a bracket other than a brace. -/
theorem instructions_on_one_line {r : Reader} {lines : List (List Char)} {items : List Item}
    (hne : lines ≠ [])
    (hread : List.Forall₂
      (fun s i => r.readLine s = .ok [i] ∧ ∃ e, i.statement = .instruction e) lines items)
    (hcomment : ∀ s ∈ lines, Text.splitComment s = (s, []))
    (hquotes : ∀ s ∈ lines, s.foldl Text.quoteAfter none = none) (hsymbols : r.symbols.ClosesQuotes)
    (hconstant : ∀ i ∈ items, Reader.opensConstant i.text.toList = false ∧
      Reader.startsEqu i.text.toList = false) :
    r.readLine (Reader.joined lines) = .ok items ↔ ∀ i ∈ items.dropLast,
      Reader.IsComplete i.text.toList := by
  obtain ⟨parts, hjoinable, hcodes, rfl⟩ := Reader.exists_parts hread hcomment hconstant
  have hsettle := Reader.settle_joined hsymbols hquotes hne hcodes
  cases parts with
  | nil =>
    cases hcodes
    exact absurd rfl hne
  | cons p parts =>
    rw [Reader.readLine_eq_ok_iff (Reader.splitComment_joined hcomment hquotes) hsettle,
      Reader.readStatements_joined hjoinable, ← List.map_dropLast, List.forall_mem_map]
    refine forall₂_congr fun q _ => ?_
    rw [Reader.item, String.toList_ofList]

/-- Whether a statement is an instruction. -/
def Statement.isInstruction : Statement → Bool
  | instruction _ => true
  | _ => false

/-- The texts of the items of a line, and whether they are instructions; none if the line cannot be
read. -/
def Reader.outline (r : Reader) (s : List Char) : Option (List (String × Bool)) :=
  (r.readLine s).toOption.map fun items => items.map fun i => (i.text, i.statement.isInstruction)

/-- Lines of which each holds one instruction. -/
theorem Reader.exists_items {r : Reader} {lines texts : List String}
    (h : lines.map (fun s => r.outline s.toList) = texts.map fun text => some [(text, true)]) :
    ∃ items, List.Forall₂ (fun s i => r.readLine s = .ok [i] ∧ ∃ e, i.statement = .instruction e)
      (lines.map String.toList) items ∧ items.map Item.text = texts := by
  induction lines generalizing texts with
  | nil => exact ⟨[], .nil, by simpa using h.symm⟩
  | cons s lines ih =>
    cases texts with
    | nil => cases h
    | cons text texts =>
      obtain ⟨hline, hlines⟩ := List.cons.inj h
      obtain ⟨items, hitems, rfl⟩ := ih hlines
      obtain ⟨read, hread, hview⟩ := Option.map_eq_some_iff.mp hline
      obtain ⟨i, rfl⟩ : ∃ i, read = [i] := by
        cases read with
        | nil => cases hview
        | cons i read => exact ⟨i, by simpa using (List.cons.inj hview).2⟩
      obtain ⟨htext, hinstruction⟩ := Prod.mk.inj (List.cons.inj hview).1
      refine ⟨i :: items, .cons ⟨toOption_eq_some.mp hread, ?_⟩ hitems,
        by rw [List.map_cons, htext]⟩
      cases hstatement : i.statement with
      | instruction e => exact ⟨e, rfl⟩
      | _ => rw [hstatement] at hinstruction; cases hinstruction

/-- An instruction set with operands that end in different ways. -/
def Isa.withEndings (isa : Isa) : Isa :=
  let base : OperandBase :=
    { id := "operand", code := some 1, codeSize := 4, place := .after, register := none,
      decoration := none,
      argument := some { size := 8, aligned := true, wordOrder := .big, segmentOrder := .big },
      wordOrder := .big, segmentOrder := .big }
  let hl : OperandBase := { base with argument := none, register := some "hl" }
  let increment : Decoration := { decorator := .plusPlus, leading := false }
  let instruction (mnemonic : String) (value : Int) (operands : List Operand) :
      String × Operation :=
    let opcode : Opcode :=
      { value, size := 4, suffix := none, wordOrder := .big, segmentOrder := .big }
    let list : OperandList :=
      { count := 1, tuples := [],
        sets := some { sets := [{ name := "operand", operands }], disallowed := [],
                       reversal := {} } }
    let operands := if operands.isEmpty then none else some list
    (mnemonic, .instruction { mnemonic, variants := [{ opcode, operands }] })
  { isa with
    registers := ["hl"]
    instructions :=
      { entries :=
        [instruction "nop" 0 [],
          instruction "ld" 1 [.simple hl (.indirectRegister none), .simple base (.numeric false)],
          instruction "jr" 2 [.simple base (.relativeAddress true none none false)],
          instruction "inc" 3 [.simple { hl with decoration := some increment } .register]] } }

/-- Instructions that end with their mnemonic, a bracket, a parenthesis, a quote, a digit and a
name. -/
theorem instructions_on_one_line_endings :
    let r := Reader.plain
      (Isa.bare { size := 8, segment := 8, order := .big } (by decide) (by decide)).withEndings
    let lines := ["nop", "ld [hl]", "ld (1 + 2) * (3)", "ld 'a'", "ld $1F", "ld x", "jr \x7b4\x7d"]
    ∃ items, List.Forall₂ (fun s i => r.readLine s = .ok [i] ∧ ∃ e, i.statement = .instruction e)
        (lines.map String.toList) items ∧
      r.readLine "nop ld [hl] ld (1 + 2) * (3) ld 'a' ld $1F ld x jr \x7b4\x7d".toList =
        .ok items := by
  intro r lines
  have hlines : lines.map (fun s => r.outline s.toList) = lines.map fun text =>
      some [(text, true)] := by
    decide +kernel
  have hplain : ∀ text ∈ lines,
      Reader.opensConstant text.toList = false ∧ Reader.startsEqu text.toList = false := by
    decide +kernel
  have hcomplete : ∀ text ∈ lines.dropLast, Reader.IsComplete text.toList := by decide +kernel
  have hjoined : Reader.joined (lines.map String.toList) =
      "nop ld [hl] ld (1 + 2) * (3) ld 'a' ld $1F ld x jr \x7b4\x7d".toList := by decide +kernel
  obtain ⟨items, hitems, htexts⟩ := Reader.exists_items hlines
  rw [← hjoined]
  refine ⟨items, hitems,
    (instructions_on_one_line (by decide) hitems (by decide +kernel) (by decide +kernel)
    (fun s hs => by cases hs) fun i hi => hplain _ ?_).mpr fun i hi => hcomplete _ ?_⟩
  · rw [← htexts]
    exact List.mem_map_of_mem hi
  · rw [← htexts, ← List.map_dropLast]
    exact List.mem_map_of_mem hi

/-- A brace or a decorator does not end an instruction, so the next one is taken for a part of the
operand. -/
theorem instruction_after_brace_not_read :
    let r := Reader.plain
      (Isa.bare { size := 8, segment := 8, order := .big } (by decide) (by decide)).withEndings
    (r.outline "jr \x7b4\x7d".toList = some [("jr \x7b4\x7d", true)] ∧
      r.outline "inc hl++".toList = some [("inc hl++", true)] ∧
        r.outline "nop".toList = some [("nop", true)]) ∧
    r.outline "jr \x7b4\x7d nop".toList = none ∧ r.outline "inc hl++ nop".toList = none := by
  decide +kernel

end Retarget
