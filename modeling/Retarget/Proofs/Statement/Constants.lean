import Retarget.Proofs.Isa.Registers
import Retarget.Proofs.Statement.Scan

/-!
# Names and constants at the start of a text

A name is followed by a colon in a label, and by `=` or the word `equ` and a value in a constant. A
text that is neither does not become one when another instruction follows, unless it is a name and
`=` or `equ` and the instruction would be its value, or the instruction is `equ` and the text a name
alone (`constantParts?_append`).
-/

namespace Retarget.Reader

variable {c d : Char} {a b cs gap rest t : List Char}

/-! ## Names -/

/-- A name at the start of a text ends with the text, if a blank follows. -/
theorem splitName_append (hc : c ≠ '.') (hd : Text.isBlank d = true) (b : List Char) :
    splitName (c :: a ++ d :: b) = (splitName (c :: a)).map fun parts =>
      (parts.1, parts.2 ++ d :: b) := by
  have hdot (x more : List Char) : c :: x ≠ '.' :: more := fun h => hc (List.cons.inj h).1
  rw [List.cons_append, splitName_of_ne (hdot _), splitName_of_ne (hdot _), ← List.cons_append,
    Text.takeWhile_append_cons (Text.isWordChar_of_isBlank hd)]
  split
  · rfl
  · rw [Option.map_some, List.drop_append_of_le_length (List.takeWhile_prefix _).length_le]

theorem append_of_splitName {name : List Char} (hc : c ≠ '.')
    (h : splitName (c :: a) = some (name, rest)) : name ++ rest = c :: a := by
  rw [splitName_of_ne fun _ h => hc (List.cons.inj h).1] at h
  split at h
  · cases h
  · cases h
    exact List.prefix_iff_eq_append.mp (List.takeWhile_prefix _)

theorem labelName?_eq_none :
    labelName? cs = none ↔ ∀ name rest, splitName cs ≠ some (name, ':' :: rest) := by
  unfold labelName?
  split
  · rename_i name rest hname
    constructor
    · intro h
      cases h
    · intro h
      exact absurd hname (h name rest)
  · rename_i hother
    exact ⟨fun _ => hother, fun _ => rfl⟩

theorem labelName?_append (hc : c ≠ '.') (hd : Text.isBlank d = true)
    (h : labelName? (c :: a) = none) (b : List Char) : labelName? (c :: a ++ d :: b) = none := by
  rw [labelName?_eq_none] at h ⊢
  intro name rest hname
  rw [splitName_append hc hd] at hname
  obtain ⟨⟨name', rest'⟩, hsplit, heq⟩ := Option.map_eq_some_iff.mp hname
  obtain ⟨rfl, hrest⟩ := Prod.mk.inj heq
  cases rest' with
  | nil =>
    obtain ⟨rfl, -⟩ := List.cons.inj hrest
    cases hd
  | cons x rest' =>
    obtain ⟨rfl, -⟩ := List.cons.inj hrest
    exact h name' rest' hsplit

/-! ## Constants -/

theorem isNameChar_of_equ {e q u : Char}
    (h : Text.equalIgnoringCase (String.ofList [e, q, u]) "equ" = true) :
    ∀ c ∈ [e, q, u], Text.isNameChar c = true := by
  intro c hc
  have hlower : c.toLower ∈ ['e', 'q', 'u'] := by
    have hmap := Text.equalIgnoringCase_iff.mp h
    rw [String.toList_ofList, show "equ".toList.map Char.toLower =
      ['e', 'q', 'u'] by decide] at hmap
    rw [← hmap]
    exact List.mem_map_of_mem hc
  have hall : ['e', 'q', 'u'].all Text.isNameChar = true := by decide
  rw [← Text.isNameChar_toLower]
  exact List.all_eq_true.mp hall _ hlower

/-- The word `equ` between blanks, after the name of a constant, and the value after it. -/
def IsEqu (rest v : List Char) : Prop :=
  ∃ b cs e q u c more, rest = b :: cs ∧ Text.isBlank b = true ∧
    Text.trimStart rest = e :: q :: u :: c :: more ∧
    Text.isBlank c = true ∧ Text.equalIgnoringCase (String.ofList [e, q, u]) "equ" = true ∧
    v = Text.trimStart (c :: more)

theorem afterEqu_eq_some {v : List Char} : afterEqu rest = some v ↔ IsEqu rest v := by
  unfold afterEqu IsEqu
  constructor
  · intro h
    split at h
    · rename_i b cs
      split at h
      · rename_i e q u c more htrim
        split at h
        · rename_i hequ
          simp only [Bool.and_eq_true] at hequ
          cases h
          exact ⟨b, cs, e, q, u, c, more, rfl, hequ.1.1, htrim, hequ.1.2, hequ.2, rfl⟩
        · cases h
      · cases h
    · cases h
  · rintro ⟨b, cs, e, q, u, c, more, rfl, hb, htrim, hc, hequ, rfl⟩
    dsimp only
    rw [htrim]
    dsimp only
    rw [hb, hc, hequ]
    rfl

/-- The value of a constant after its name. -/
def HasValue (rest v : List Char) : Prop :=
  (∃ more, Text.trimStart rest = '=' :: more ∧ v = Text.trimStart more) ∨ IsEqu rest v

theorem constantParts?_eq_none :
    constantParts? cs = none ↔
      ∀ name rest v, splitName cs = some (name, rest) → HasValue rest v → v = [] ∨ '\n' ∈ v := by
  have hshort {name v : List Char} :
      (if v.isEmpty || v.contains '\n' then none else some (name, v)) = none ↔ v = [] ∨
        '\n' ∈ v := by
    simp [or_iff_not_imp_left]
  unfold constantParts?
  cases splitName cs with
  | none => simp
  | some parts =>
    obtain ⟨name, rest⟩ := parts
    dsimp only
    constructor
    · rintro h name' rest' v ⟨⟩ (⟨more, htrim, rfl⟩ | hequ)
      · rw [htrim] at h
        exact hshort.mp h
      · have hletter : ∀ more, Text.trimStart rest ≠ '=' :: more := by
          obtain ⟨b, cs, e, q, u, c, more, -, -, htrim, -, hequ, -⟩ := hequ
          intro more' hmore
          rw [htrim] at hmore
          cases hmore
          exact absurd (isNameChar_of_equ hequ '=' List.mem_cons_self) (by decide)
        split at h
        · rename_i v' hv
          split at hv
          · rename_i more hmore
            exact absurd hmore (hletter more)
          · rw [afterEqu_eq_some.mpr hequ] at hv
            cases hv
            exact hshort.mp h
        · rename_i hv
          split at hv
          · cases hv
          · rw [afterEqu_eq_some.mpr hequ] at hv
            cases hv
    · intro h
      split
      · rename_i v hv
        refine hshort.mpr (h name rest v rfl ?_)
        split at hv
        · rename_i more hmore
          cases hv
          exact .inl ⟨more, hmore, rfl⟩
        · exact .inr (afterEqu_eq_some.mp hv)
      · rfl

/-- A text does not take on the word `equ` from what follows it, unless it ends with it. -/
theorem isEqu_append {v : List Char} (hend : Text.trimEnd rest = rest) (hne : rest ≠ [])
    (hequ : Text.equalIgnoringCase (String.ofList (Text.trim rest)) "equ" = false)
    (hd : Text.isBlank d = true) (h : IsEqu (rest ++ d :: b) v) :
    ∃ v', IsEqu rest v' ∧ v' ≠ [] ∧ v = v' ++ d :: b := by
  have hstart := Text.trimStart_ne_nil hend hne
  have htrim : Text.trim rest = Text.trimStart rest := Text.trim_of_trimEnd hend
  obtain ⟨b', cs, e, q, u, c, more, hcs, hb, hmore, hc, hletters, rfl⟩ := h
  have hletter {c : Char} (hc : c ∈ [e, q, u]) : d ≠ c :=
    Text.ne_of_isBlank hd (Text.isBlank_of_isNameChar (isNameChar_of_equ hletters c hc))
  rw [Text.trimStart_append hstart] at hmore
  rw [htrim] at hequ
  -- The letters of `equ` are no blanks, so they stand before `d`, and more than they stands there.
  rcases hx : Text.trimStart rest with _ | ⟨e', _ | ⟨q', _ | ⟨u', _ | ⟨c', more'⟩⟩⟩⟩ <;>
    simp only [hx, List.nil_append, List.cons_append, List.cons.injEq] at hmore
  · exact absurd hx hstart
  · exact absurd hmore.2.1 (hletter (by simp))
  · exact absurd hmore.2.2.1 (hletter (by simp))
  · obtain ⟨rfl, rfl, rfl, -⟩ := hmore
    rw [hx, hletters] at hequ
    cases hequ
  · obtain ⟨rfl, rfl, rfl, rfl, rfl⟩ := hmore
    have hend' : Text.trimEnd ([e', q', u'] ++ c' :: more') = [e', q', u'] ++ c' :: more' := by
      rw [List.cons_append, List.cons_append, List.cons_append, List.nil_append, ← hx]
      exact htrim
    obtain ⟨hkept, happend⟩ :=
      Text.trimStart_append_of_end hend' (List.cons_ne_nil c' more') (d :: b)
    obtain ⟨b'', cs', rfl⟩ := List.exists_cons_of_ne_nil hne
    obtain ⟨rfl, -⟩ := List.cons.inj hcs
    exact ⟨_, ⟨b'', cs', e', q', u', c', more', rfl, hb, hx, hc, hletters, rfl⟩, hkept, happend⟩

/-- A text does not take on a value from what follows it, unless it ends with `=` or `equ`. -/
theorem hasValue_append {v : List Char} (hend : Text.trimEnd rest = rest) (hne : rest ≠ [])
    (heq : Text.trim rest ≠ ['='])
    (hequ : Text.equalIgnoringCase (String.ofList (Text.trim rest)) "equ" = false)
    (hd : Text.isBlank d = true) (h : HasValue (rest ++ d :: b) v) :
    ∃ v', HasValue rest v' ∧ v' ≠ [] ∧ v = v' ++ d :: b := by
  rcases h with ⟨more, hmore, rfl⟩ | h
  · have hstart := Text.trimStart_ne_nil hend hne
    have htrim : Text.trim rest = Text.trimStart rest := Text.trim_of_trimEnd hend
    rw [Text.trimStart_append hstart] at hmore
    rw [htrim] at heq
    rcases hx : Text.trimStart rest with _ | ⟨c, more'⟩ <;>
      simp only [hx, List.nil_append, List.cons_append, List.cons.injEq] at hmore
    · exact absurd hx hstart
    · obtain ⟨rfl, rfl⟩ := hmore
      have hend' : Text.trimEnd (['='] ++ more') = ['='] ++ more' := by
        rw [List.singleton_append, ← hx]
        exact htrim
      have hne' : more' ≠ [] := by
        rintro rfl
        exact heq hx
      obtain ⟨hkept, happend⟩ := Text.trimStart_append_of_end hend' hne' (d :: b)
      exact ⟨_, .inl ⟨more', hx, rfl⟩, hkept, happend⟩
  · obtain ⟨v', hv', hkept⟩ := isEqu_append hend hne hequ hd h
    exact ⟨v', .inr hv', hkept⟩

/-- An instruction that is a name followed by `=` or `equ` only. With something after it, it would
be a constant. -/
def opensConstant (t : List Char) : Bool :=
  (splitName t).any fun parts =>
    Text.trim parts.2 == ['='] || Text.equalIgnoringCase (String.ofList (Text.trim parts.2)) "equ"

/-- The word that an instruction starts with is `equ`. After a mnemonic that stands alone, it would
define a constant. -/
def startsEqu (t : List Char) : Bool :=
  Text.equalIgnoringCase (String.ofList (t.takeWhile isMnemonicChar)) "equ"

/-- A mnemonic other than `equ` starts no value. -/
theorem not_hasValue {next v : List Char} (hrest : Text.trimStart rest = d :: next)
    (hd : isMnemonicChar d = true) (hequ : startsEqu (d :: next) = false) : ¬ HasValue rest v := by
  rintro (⟨more, hmore, -⟩ | ⟨b, cs, e, q, u, c, more, -, -, hmore, hc, hletters, -⟩)
  · obtain ⟨rfl, -⟩ := List.cons.inj (hrest.symm.trans hmore)
    exact absurd hd (by decide)
  · have hword : (d :: next).takeWhile isMnemonicChar = [e, q, u] := by
      have hchars : ∀ c ∈ [e, q, u], isMnemonicChar c = true := fun c hc => by
        rw [isMnemonicChar, isNameChar_of_equ hletters c hc, Bool.true_or]
      rw [hrest.symm.trans hmore]
      exact (Text.takeWhile_append_of_ends (b := c :: more) hchars fun x hx => by
        cases hx
        exact isMnemonicChar_of_isBlank hc).1
    rw [startsEqu, hword, hletters] at hequ
    cases hequ

/-- A text that is no constant does not become one when an instruction follows it. -/
theorem constantParts?_append {next : List Char} (hc : c ≠ '.') (ht : Text.trim (c :: a) = c :: a)
    (hnone : constantParts? (c :: a) = none) (hopens : opensConstant (c :: a) = false)
    (hgap : ∀ d ∈ gap, Text.isBlank d = true) (hne : gap ≠ []) (hd : isMnemonicChar d = true)
    (hequ : startsEqu (d :: next) = false) :
    constantParts? (c :: a ++ (gap ++ d :: next)) = none := by
  have hafter : Text.trimStart (gap ++ d :: next) = d :: next := by
    rw [Text.trimStart, List.dropWhile_append_of_pos hgap]
    exact Text.trimStart_cons (isBlank_of_isMnemonicChar hd) next
  rw [constantParts?_eq_none] at hnone ⊢
  intro name rest v hname hvalue
  obtain ⟨b, gap, rfl⟩ := List.exists_cons_of_ne_nil hne
  have hb := hgap b List.mem_cons_self
  have hwhole : c :: a ++ (b :: gap ++ d :: next) = c :: a ++ b :: (gap ++ d :: next) := rfl
  rw [hwhole, splitName_append hc hb] at hname
  obtain ⟨⟨name, rest⟩, hsplit, hparts⟩ := Option.map_eq_some_iff.mp hname
  cases hparts
  cases rest with
  | nil => exact absurd hvalue (not_hasValue hafter hd hequ)
  | cons x rest =>
    have hend : Text.trimEnd (c :: a) = c :: a := Text.trimEnd_of_trim ht
    rw [← append_of_splitName hc hsplit] at hend
    rw [opensConstant, hsplit, Option.any_some, Bool.or_eq_false_iff] at hopens
    obtain ⟨v', hv', hne', rfl⟩ :=
      hasValue_append (Text.trimEnd_of_append hend) (List.cons_ne_nil x rest)
      (beq_eq_false_iff_ne.mp hopens.1) hopens.2 hb hvalue
    rcases hnone name _ v' hsplit hv' with hnil | hline
    · exact absurd hnil hne'
    · exact .inr (List.mem_append_left _ hline)

end Retarget.Reader
