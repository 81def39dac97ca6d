import Retarget.Proofs.Expr.Name
import Retarget.Text.Lower

/-!
# Letter case

Keywords and registers are compared without regard to the case of ASCII letters
(`equalIgnoringCase`), mnemonics in full lower case (`lower`). A letter beyond ASCII may have an
ASCII letter in lower case, as the sign for kelvin has, so that texts with the same lower case need
not be ASCII both. They differ in the case of letters only, character by character (`CaseVariant`),
and for two ASCII texts all three notions are the same (`lower_eq_iff`,
`equalIgnoringCase_iff_lower`).
-/

namespace Retarget.Text

/-! ## ASCII letters -/

theorem toNat_toLower (c : Char) :
    c.toLower.toNat = if 65 ≤ c.toNat ∧ c.toNat ≤ 90 then c.toNat + 32 else c.toNat := by
  have hrange : (c.val ≥ 'A'.val ∧ c.val ≤ 'Z'.val) ↔ 65 ≤ c.toNat ∧ c.toNat ≤ 90 := by
    simp only [ge_iff_le, UInt32.le_iff_toNat_le]
    exact Iff.rfl
  unfold Char.toLower
  split
  · rename_i h
    have hupper := hrange.mp h
    have hsum : (c.val + 32).toNat = (c.toNat + 32) % 4294967296 := UInt32.toNat_add c.val 32
    rw [if_pos hupper]
    exact hsum.trans (by omega)
  · rename_i h
    rw [if_neg (mt hrange.mpr h)]

theorem isLetter_toLower (c : Char) : isLetter c.toLower = isLetter c := by
  rw [Bool.eq_iff_iff, isLetter_iff, isLetter_iff, toNat_toLower]
  split <;> omega

/-- A character that is no letter comes from itself only. -/
theorem toLower_eq_iff {c d : Char} (hd : isLetter d = false) : c.toLower = d ↔ c = d := by
  have hletter : ¬ isLetter d = true := by simp [hd]
  rw [isLetter_iff] at hletter
  rw [← Char.toNat_inj, ← Char.toNat_inj, toNat_toLower]
  split <;> omega

theorem toLower_eq_b_iff {c : Char} : c.toLower = 'b' ∨ c.toLower = 'B' ↔ c = 'b' ∨ c = 'B' := by
  have hb : 'b'.toNat = 98 := rfl
  have hB : 'B'.toNat = 66 := rfl
  simp only [← Char.toNat_inj, toNat_toLower, hb, hB]
  split <;> omega

theorem isNameChar_toLower (c : Char) : isNameChar c.toLower = isNameChar c := by
  have hdigit : isDigit c.toLower = isDigit c := by
    rw [Bool.eq_iff_iff, isDigit_iff, isDigit_iff, toNat_toLower]
    split <;> omega
  have hline : (c.toLower == '_') = (c == '_') := by
    rw [Bool.eq_iff_iff, beq_iff_eq, beq_iff_eq, toLower_eq_iff (by decide)]
  rw [isNameChar, isNameChar, isLetter_toLower, hdigit, hline]

theorem equalIgnoringCase_iff {a b : String} :
    equalIgnoringCase a b = true ↔ a.toList.map Char.toLower = b.toList.map Char.toLower := by
  rw [equalIgnoringCase, lowerAscii, lowerAscii, beq_iff_eq, String.ofList_inj]

/-! ## Full lower case -/

/-- The text is made of ASCII characters. -/
def IsAscii (s : String) : Prop := ∀ c ∈ s.toList, c.toNat < 128

/-- The texts differ in the case of letters only: character by character, they have the same lower
case. -/
def CaseVariant (a b : String) : Prop :=
  List.Forall₂ (fun c d => lowerChar c = lowerChar d) a.toList b.toList

variable {c d : Char} {cs ds before : List Char} {a b : String}

theorem toNat_toLower_lt (h : c.toNat < 128) : c.toLower.toNat < 128 := by
  rw [toNat_toLower]
  split <;> omega

theorem lowerChar_of_ascii (h : c.toNat < 128) : lowerChar c = [c.toLower] := by
  have hupper : ('A' ≤ c && c ≤ 'Z') = true ↔ 65 ≤ c.toNat ∧ c.toNat ≤ 90 := by
    simp only [Bool.and_eq_true, decide_eq_true_eq, Char.le_def, UInt32.le_iff_toNat_le]
    exact Iff.rfl
  have hlower := toNat_toLower c
  rw [lowerChar, if_pos h, List.singleton_inj]
  by_cases hc : 65 ≤ c.toNat ∧ c.toNat ≤ 90
  · rw [if_pos hc] at hlower
    rw [if_pos (hupper.mpr hc), ← hlower, Char.ofNat_toNat]
  · rw [if_neg hc] at hlower
    rw [if_neg (mt hupper.mp hc), Char.toNat_inj.mp hlower]

/-- Apart from the capital I with a dot, the lower case of a character is one character. -/
theorem lowerChar_cases (d : Char) :
    (∃ e, lowerChar d = [e]) ∨ lowerChar d = ['i', Char.ofNat 0x307] := by
  unfold lowerChar
  dsimp only
  split
  · exact .inl ⟨_, rfl⟩
  · split
    · exact .inr rfl
    · split
      · exact .inl ⟨_, rfl⟩
      · exact .inl ⟨_, rfl⟩

/-- What a character becomes in a text: the one character of its lower case, or something with a
character beyond ASCII, and then it is no variant of an ASCII character. -/
theorem lowerFrom_cons (before : List Char) (d : Char) (ds : List Char) :
    ∃ form, lowerFrom before (d :: ds) = form ++ lowerFrom (d :: before) ds ∧
      ((∃ e, form = [e] ∧ lowerChar d = [e]) ∨
        (∃ e ∈ form, 128 ≤ e.toNat) ∧ ∀ c : Char, c.toNat < 128 → lowerChar c ≠ lowerChar d) := by
  refine ⟨_, rfl, ?_⟩
  split
  · -- The capital sigma, whose form depends on its place.
    rename_i hsigma
    have hd : d = Char.ofNat 0x3A3 := Char.toNat_inj.mp (beq_iff_eq.mp hsigma)
    have hlower : lowerChar (Char.ofNat 0x3A3) = [Char.ofNat 0x3C3] := by decide +kernel
    refine .inr ⟨⟨_, List.mem_singleton_self _, by split <;> decide⟩, fun c hc => ?_⟩
    rw [hd, hlower, lowerChar_of_ascii hc, ne_eq, List.singleton_inj, ← Char.toNat_inj]
    have hlt := toNat_toLower_lt hc
    have hsigma : (Char.ofNat 0x3C3).toNat = 0x3C3 := rfl
    omega
  · rcases lowerChar_cases d with ⟨e, he⟩ | hd
    · exact .inl ⟨e, he, he⟩
    · refine .inr ⟨⟨Char.ofNat 0x307, by rw [hd]; simp, by decide⟩, fun c hc => ?_⟩
      rw [hd, lowerChar_of_ascii hc]
      simp

/-- A text whose lower case is that of ASCII characters has variants of these. -/
theorem lowerFrom_eq_map_iff (hcs : ∀ c ∈ cs, c.toNat < 128) :
    lowerFrom before ds = cs.map Char.toLower ↔
      List.Forall₂ (fun c d => lowerChar c = lowerChar d) cs ds := by
  induction ds generalizing cs before with
  | nil => rw [lowerFrom, List.forall₂_nil_right_iff, eq_comm, List.map_eq_nil_iff]
  | cons d ds ih =>
    obtain ⟨form, hform, ⟨e, rfl, he⟩ | ⟨⟨e, he, hlarge⟩, hnone⟩⟩ := lowerFrom_cons before d ds
    · rw [hform, List.singleton_append]
      cases cs with
      | nil => simp
      | cons c cs =>
        obtain ⟨hc, hcs⟩ := List.forall_mem_cons.mp hcs
        rw [List.map_cons, List.cons.injEq, ih hcs, List.forall₂_cons, lowerChar_of_ascii hc, he,
          List.singleton_inj, eq_comm]
    · refine iff_of_false (fun h => ?_) (fun h => ?_)
      · have hmem : e ∈ cs.map Char.toLower := by
          rw [← h, hform]
          exact List.mem_append_left _ he
        obtain ⟨c, hc, rfl⟩ := List.mem_map.mp hmem
        have hlt := toNat_toLower_lt (hcs c hc)
        omega
      · cases h with
        | cons hd _ => exact hnone _ (hcs _ List.mem_cons_self) hd

theorem lower_of_ascii (h : IsAscii a) : lower a = String.ofList (a.toList.map Char.toLower) := by
  rw [lower, String.ofList_inj, lowerChars, lowerFrom_eq_map_iff h]
  exact List.forall₂_same.mpr fun _ _ => rfl

/-- **Variants of an ASCII text** are the texts with the same lower case. -/
theorem lower_eq_iff (h : IsAscii a) : lower b = lower a ↔ CaseVariant a b := by
  rw [lower_of_ascii h, lower, String.ofList_inj, lowerChars, lowerFrom_eq_map_iff h, CaseVariant]

theorem isAscii_lower (h : IsAscii a) : IsAscii (lower a) := by
  intro c hc
  rw [lower_of_ascii h, String.toList_ofList] at hc
  obtain ⟨d, hd, rfl⟩ := List.mem_map.mp hc
  exact toNat_toLower_lt (h d hd)

/-- For ASCII texts, the comparison in full lower case is that of ASCII letters. -/
theorem equalIgnoringCase_iff_lower (ha : IsAscii a) (hb : IsAscii b) :
    equalIgnoringCase a b = true ↔ lower a = lower b := by
  rw [equalIgnoringCase_iff, lower_of_ascii ha, lower_of_ascii hb, String.ofList_inj]

theorem lower_lower (h : IsAscii a) : lower (lower a) = lower a := by
  rw [lower_of_ascii (isAscii_lower h), lower_of_ascii h, String.toList_ofList, List.map_map,
    String.ofList_inj]
  apply List.map_congr_left
  intro c hc
  have hsmall : ¬ (65 ≤ c.toLower.toNat ∧ c.toLower.toNat ≤ 90) := by
    rw [toNat_toLower]
    split <;> omega
  rw [Function.comp_apply, ← Char.toNat_inj, toNat_toLower c.toLower, if_neg hsmall]

end Retarget.Text
