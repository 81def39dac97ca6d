import Retarget.Proofs.Symbol.Substitution

/-!
# Symbols in full

Symbols are replaced pass by pass, all words of a text at once. The result is the text in which
every symbol is expanded in full: its text, with the symbols of that expanded in turn. As many
passes are needed as the longest chain of symbols has members, and one more that finds nothing to
replace.

* `Text.HasWord`: the words of a text outside quotes; `SymbolTable.IsChain`: chains of symbols that
  begin in a text;
* `SymbolTable.hasWord_substitute`: the words after a pass, and from it
  `SymbolTable.exists_chain_substitute`: a pass takes off the first symbol of every chain;
* `SymbolTable.Expands`: expansion in full; `SymbolTable.expands_substitute`: a pass does not change
  it;
* `SymbolTable.settle_eq_none_iff`, `SymbolTable.expands_iff_of_settle`: all passes.
-/

namespace Retarget

/-! ## Words -/

namespace Text

/-- A word: at least one character, and name characters only. -/
def IsWord (w : List Char) : Prop := w ≠ [] ∧ ∀ c ∈ w, isNameChar c = true

/-- What may be open before a text: nothing, or one of the two quotes. -/
def IsOpen (quote : Option Char) : Prop := ∀ q ∈ quote, isQuote q = true

/-- No word goes on at the start of a text. -/
def EndsWord (rest : List Char) : Prop := ∀ c ∈ rest.head?, isNameChar c = false

/-- `w` stands in a text outside quotes and is not part of a longer word. `quote` is the quote that
is open before the text. -/
def HasWord (quote : Option Char) (cs w : List Char) : Prop :=
  ∃ before after, cs = before ++ w ++ after ∧ IsWord w ∧ before.foldl quoteAfter quote = none ∧
    (∀ c ∈ before.getLast?, isNameChar c = false) ∧ EndsWord after

variable {quote : Option Char} {c : Char} {u w x rest : List Char}

theorem IsOpen.none : IsOpen none := by
  intro q hq
  cases hq

theorem IsOpen.after (h : IsOpen quote) (c : Char) : IsOpen (quoteAfter quote c) := by
  intro q hq
  unfold quoteAfter at hq
  split at hq
  · split at hq
    · cases hq
    · exact h q hq
  · split at hq
    · cases hq
      assumption
    · cases hq

theorem IsOpen.foldl (h : IsOpen quote) (cs : List Char) : IsOpen (cs.foldl quoteAfter quote) := by
  induction cs generalizing quote with
  | nil => exact h
  | cons c cs ih => exact ih (h.after c)

theorem EndsWord.nil : EndsWord [] := by
  intro c hc
  cases hc

theorem EndsWord.append (hx : EndsWord x) (hrest : EndsWord rest) : EndsWord (x ++ rest) := by
  cases x with
  | nil => exact hrest
  | cons c x => exact hx

theorem EndsWord.takeWhile_eq (hrest : EndsWord rest) (hu : ∀ c ∈ u, isNameChar c = true) :
    (u ++ rest).takeWhile isNameChar = u ∧ (u ++ rest).dropWhile isNameChar = rest :=
  takeWhile_append_of_ends hu hrest

/-- A word and what cannot belong to it are cut in one way only. -/
theorem IsWord.append_inj (hw : IsWord w) (hu : IsWord u) (hx : EndsWord x) (hrest : EndsWord rest)
    (h : w ++ x = u ++ rest) : w = u ∧ x = rest := by
  obtain ⟨htake, hdrop⟩ := hx.takeWhile_eq hw.2
  obtain ⟨htake', hdrop'⟩ := hrest.takeWhile_eq hu.2
  rw [h] at htake hdrop
  exact ⟨htake.symm.trans htake', hdrop.symm.trans hdrop'⟩

theorem IsWord.append_ne_cons (hw : IsWord w) (hc : isNameChar c = false) : w ++ x ≠ c :: rest := by
  obtain ⟨d, w, rfl⟩ := List.exists_cons_of_ne_nil hw.1
  intro h
  obtain ⟨rfl, -⟩ := List.cons.inj h
  rw [hw.2 d List.mem_cons_self] at hc
  cases hc

theorem IsWord.isQuote_eq_false (hw : IsWord w) : ∀ c ∈ w, isQuote c = false := fun c hc =>
  isQuote_of_isNameChar (hw.2 c hc)

theorem not_hasWord_nil : ¬ HasWord quote [] w := by
  rintro ⟨before, after, h, hw, -⟩
  simp only [List.append_assoc, List.nil_eq, List.append_eq_nil_iff] at h
  exact hw.1 h.2.1

/-- The words of a text that begins with a word. -/
theorem hasWord_word_append (hu : IsWord u) (hrest : EndsWord rest) :
    HasWord none (u ++ rest) w ↔ w = u ∨ HasWord none rest w := by
  constructor
  · rintro ⟨before, after, h, hw, hopen, hbefore, hafter⟩
    rw [List.append_assoc] at h
    rcases List.append_eq_append_iff.mp h with ⟨more, rfl, hmore⟩ | ⟨more, rfl, hmore⟩
    · -- The word begins after the first one.
      refine .inr ⟨more, after, by rw [hmore, List.append_assoc], hw, ?_, ?_, hafter⟩
      · rwa [List.foldl_append, foldl_quoteAfter hu.isQuote_eq_false] at hopen
      · intro c hc
        refine hbefore c ?_
        rw [List.getLast?_append, Option.mem_def.mp hc]
        rfl
    · -- It begins in the first one, and so with it.
      cases hlast : before.getLast? with
      | some c =>
        have hname := hu.2 c (List.mem_append_left _ (List.mem_of_getLast? hlast))
        rw [hbefore c hlast] at hname
        cases hname
      | none =>
        obtain rfl := List.getLast?_eq_none_iff.mp hlast
        rw [List.nil_append] at hu h
        rw [List.nil_append] at h
        exact .inl (hw.append_inj hu hafter hrest h.symm).1
  · rintro (rfl | ⟨before, after, rfl, hw, hopen, hbefore, hafter⟩)
    · refine ⟨[], rest, rfl, hu, rfl, ?_, hrest⟩
      intro c hc
      cases hc
    · refine ⟨u ++ before, after, by simp, hw, ?_, ?_, hafter⟩
      · rwa [List.foldl_append, foldl_quoteAfter hu.isQuote_eq_false]
      · intro c hc
        rw [List.getLast?_append] at hc
        cases hlast : before.getLast? with
        | some d =>
          rw [hlast] at hc
          cases hc
          exact hbefore c hlast
        | none =>
          -- Then the two words would be one.
          obtain rfl := List.getLast?_eq_none_iff.mp hlast
          obtain ⟨d, w, rfl⟩ := List.exists_cons_of_ne_nil hw.1
          have hname := hw.2 d List.mem_cons_self
          rw [hrest d rfl] at hname
          cases hname

/-- The words of a text that begins with any other character. -/
theorem hasWord_cons (hquote : IsOpen quote) (hc : quote = none → isNameChar c = false) :
    HasWord quote (c :: rest) w ↔ HasWord (quoteAfter quote c) rest w := by
  constructor
  · rintro ⟨before, after, h, hw, hopen, hbefore, hafter⟩
    cases before with
    | nil => exact absurd h.symm (hw.append_ne_cons (hc hopen))
    | cons d before =>
      obtain ⟨rfl, rfl⟩ := List.cons.inj h
      refine ⟨before, after, rfl, hw, hopen, fun e he => hbefore e ?_, hafter⟩
      rw [List.getLast?_cons, Option.mem_def.mp he]
      rfl
  · rintro ⟨before, after, rfl, hw, hopen, hbefore, hafter⟩
    refine ⟨c :: before, after, rfl, hw, hopen, fun e he => ?_, hafter⟩
    rw [List.getLast?_cons] at he
    cases hlast : before.getLast? with
    | some d =>
      rw [hlast] at he
      cases he
      exact hbefore d hlast
    | none =>
      -- A word right after the character stands outside quotes, and then the character belongs to
      -- no word.
      obtain rfl := List.getLast?_eq_none_iff.mp hlast
      rw [hlast] at he
      cases he
      cases quote with
      | none => exact hc rfl
      | some q =>
        rw [List.foldl_nil, quoteAfter] at hopen
        split at hopen
        · rename_i heq
          rw [beq_iff_eq.mp heq]
          exact isNameChar_of_isQuote (hquote q rfl)
        · cases hopen

/-- Induction over the words of a text and the characters between them. -/
theorem words_induction {motive : Option Char → List Char → Prop} (nil : ∀ quote, motive quote [])
    (word : ∀ w rest, IsWord w → EndsWord rest → motive none rest → motive none (w ++ rest))
    (other : ∀ quote c rest, (quote = none → isNameChar c = false) →
      motive (quoteAfter quote c) rest → motive quote (c :: rest))
    (quote : Option Char) (cs : List Char) : motive quote cs := by
  induction quote, cs using SymbolTable.words_induction with
  | nil quote => exact nil quote
  | name c rest hc ih =>
    have hw : IsWord (c :: rest.takeWhile isNameChar) :=
      ⟨List.cons_ne_nil _ _, List.forall_mem_cons.mpr ⟨hc, List.all_eq_true.mp List.all_takeWhile⟩⟩
    have hends : EndsWord (rest.dropWhile isNameChar) := by
      intro d hd
      have hfirst := List.head?_dropWhile_not isNameChar rest
      rw [Option.mem_def.mp hd] at hfirst
      exact hfirst
    have h := word _ _ hw hends ih
    rwa [List.cons_append, List.takeWhile_append_dropWhile] at h
  | other quote c rest hc ih =>
    refine other quote c rest ?_ ih
    rintro rfl
    exact hc

/-- The words of two texts side by side. -/
theorem hasWord_append (hx : ∀ c ∈ x, isQuote c = false) (hrest : EndsWord rest) :
    HasWord none (x ++ rest) w ↔ HasWord none x w ∨ HasWord none rest w := by
  generalize hnone : (none : Option Char) = quote
  induction quote, x using words_induction with
  | nil quote =>
    subst hnone
    rw [List.nil_append, or_iff_right not_hasWord_nil]
  | word u x hu hends ih =>
    have hx : ∀ c ∈ x, isQuote c = false := fun c hc => hx c (List.mem_append_right u hc)
    rw [List.append_assoc, hasWord_word_append hu (hends.append hrest),
      hasWord_word_append hu hends, ih hx rfl, or_assoc]
  | other quote c x hc ih =>
    subst hnone
    obtain ⟨hopen, hx⟩ := List.forall_mem_cons.mp hx
    rw [List.cons_append, hasWord_cons .none hc, hasWord_cons .none hc]
    rw [quoteAfter_none hopen] at ih ⊢
    exact ih hx rfl

end Text

namespace SymbolTable

variable {t : SymbolTable} {quote : Option Char} {c : Char} {cs rest w v x out : List Char}

/-- A symbol with a text, which is not its own name. -/
def HasText (t : SymbolTable) (w v : List Char) : Prop :=
  isSymbolName (String.ofList w) = true ∧
    ∃ s, t.find? (String.ofList w) = some s ∧ s.value = some (String.ofList v) ∧ v ≠ w

theorem replacement_eq_some : t.replacement w = some v ↔ t.HasText w v := by
  unfold replacement HasText
  dsimp only
  split
  · rename_i hname
    simp only [hname, true_and, Option.bind_eq_some_iff]
    constructor
    · rintro ⟨text, ⟨s, hs, htext⟩, h⟩
      split at h
      · cases h
      · rename_i hne
        cases h
        refine ⟨s, hs, by rw [htext, String.ofList_toList], ?_⟩
        rintro rfl
        simp at hne
    · rintro ⟨s, hs, htext, hne⟩
      refine ⟨_, ⟨s, hs, htext⟩, ?_⟩
      rw [if_neg, String.toList_ofList]
      simpa [String.ofList_inj] using hne
  · rename_i hname
    simp [hname]

theorem replacement_eq_none : t.replacement w = none ↔ ¬ ∃ v, t.HasText w v := by
  simp [← replacement_eq_some, Option.eq_none_iff_forall_ne_some]

theorem isSome_replacement : (t.replacement w).isSome = true ↔ ∃ v, t.HasText w v := by
  simp only [Option.isSome_iff_exists, replacement_eq_some]

/-- The texts of symbols have no quotes. -/
def Unquoted (t : SymbolTable) : Prop :=
  ∀ s ∈ t, ∀ v ∈ s.value, ∀ c ∈ v.toList, Text.isQuote c = false

instance : DecidablePred Unquoted := fun t =>
  -- Only the characters of the texts are to be tried.
  have (cs : List Char) : Decidable (∀ c ∈ cs, Text.isQuote c = false) := List.decidableBAll _ cs
  inferInstanceAs (Decidable (∀ s ∈ t, ∀ v ∈ s.value, ∀ c ∈ v.toList, Text.isQuote c = false))

theorem Unquoted.isQuote_eq_false (ht : t.Unquoted) (h : t.HasText w v) :
    ∀ c ∈ v, Text.isQuote c = false := by
  obtain ⟨-, s, hs, hv, -⟩ := h
  simpa using ht s (List.mem_of_find?_eq_some hs) _ hv

/-! ## Words after a pass -/

theorem substitute_word (hw : Text.IsWord w) (hrest : Text.EndsWord rest) :
    t.substitute none (w ++ rest) =
      ((t.replacement w).getD w ++ (t.substitute none rest).1,
        (t.replacement w).isSome || (t.substitute none rest).2) := by
  obtain ⟨c, u, rfl⟩ := List.exists_cons_of_ne_nil hw.1
  obtain ⟨hc, hu⟩ := List.forall_mem_cons.mp hw.2
  obtain ⟨htake, hdrop⟩ := hrest.takeWhile_eq hu
  rw [List.cons_append, substitute_name hc, htake, hdrop]

theorem substitute_cons (hc : quote = none → Text.isNameChar c = false) :
    t.substitute quote (c :: rest) =
      (c :: (t.substitute (Text.quoteAfter quote c) rest).1,
        (t.substitute (Text.quoteAfter quote c) rest).2) := by
  refine substitute_other ?_
  cases quote with
  | none => exact hc rfl
  | some q => rfl

theorem endsWord_substitute (hrest : Text.EndsWord rest) :
    Text.EndsWord (t.substitute none rest).1 := by
  cases rest with
  | nil =>
    rw [substitute]
    exact hrest
  | cons c rest =>
    rw [substitute_cons fun _ => hrest c rfl]
    exact hrest

/-- **The words after a pass.** A word that is no symbol stays, and a symbol gives the words of its
text. -/
theorem hasWord_substitute (ht : t.Unquoted) (hquote : Text.IsOpen quote) (cs : List Char) :
    Text.HasWord quote (t.substitute quote cs).1 w ↔
      ∃ u, Text.HasWord quote cs u ∧
        ((¬ ∃ v, t.HasText u v) ∧ w = u ∨ ∃ v, t.HasText u v ∧ Text.HasWord none v w) := by
  induction quote, cs using Text.words_induction with
  | nil quote =>
    rw [substitute]
    simp [Text.not_hasWord_nil]
  | word u rest hu hrest ih =>
    rw [substitute_word hu hrest]
    have hends := endsWord_substitute (t := t) hrest
    simp only [Text.hasWord_word_append hu hrest, or_and_right, exists_or, exists_eq_left,
      ← ih hquote]
    cases hu' : t.replacement u with
    | none =>
      have hnot := replacement_eq_none.mp hu'
      rw [Option.getD_none, Text.hasWord_word_append hu hends]
      simp only [hnot, not_false_eq_true, true_and]
      simp [not_exists.mp hnot]
    | some v =>
      have hv := replacement_eq_some.mp hu'
      have huniq (v' : List Char) (hv' : t.HasText u v') : v' = v :=
        Option.some_inj.mp ((replacement_eq_some.mpr hv').symm.trans hu')
      rw [Option.getD_some, Text.hasWord_append (ht.isQuote_eq_false hv) hends]
      refine or_congr_left ⟨fun h => .inr ⟨v, hv, h⟩, ?_⟩
      rintro (⟨hnot, -⟩ | ⟨v', hv', h⟩)
      · exact absurd ⟨v, hv⟩ hnot
      · rwa [huniq v' hv'] at h
  | other quote c rest hc ih =>
    rw [substitute_cons hc]
    simp only [Text.hasWord_cons hquote hc, ih (hquote.after c)]

/-- A pass replaces something if a symbol stands in the text. -/
theorem substitute_changed_iff (hquote : Text.IsOpen quote) (cs : List Char) :
    (t.substitute quote cs).2 = true ↔ ∃ u, Text.HasWord quote cs u ∧ ∃ v, t.HasText u v := by
  induction quote, cs using Text.words_induction with
  | nil quote =>
    rw [substitute]
    simp [Text.not_hasWord_nil]
  | word u rest hu hrest ih =>
    rw [substitute_word hu hrest]
    simp only [Text.hasWord_word_append hu hrest, or_and_right, exists_or, exists_eq_left,
      ← ih hquote, isSome_replacement, Bool.or_eq_true]
  | other quote c rest hc ih =>
    rw [substitute_cons hc]
    simp only [Text.hasWord_cons hquote hc, ih (hquote.after c)]

/-! ## Chains -/

/-- Symbols of which the first one stands in a text, and each other one in the text of the one
before it. -/
def IsChain (t : SymbolTable) : List Char → List (List Char) → Prop
  | _, [] => True
  | cs, w :: chain => Text.HasWord none cs w ∧ ∃ v, t.HasText w v ∧ t.IsChain v chain

/-- **A pass takes off the first symbol of every chain.** -/
theorem exists_chain_substitute (ht : t.Unquoted) (n : Nat) :
    (∃ chain, t.IsChain (t.substitute none cs).1 chain ∧ n + 1 ≤ chain.length) ↔
      ∃ chain, t.IsChain cs chain ∧ n + 2 ≤ chain.length := by
  constructor
  · rintro ⟨_ | ⟨w, chain⟩, hchain, hlen⟩
    · cases hlen
    · obtain ⟨hw, hrest⟩ := hchain
      obtain ⟨u, hu, ⟨hnot, rfl⟩ | ⟨v, hv, hword⟩⟩ := (hasWord_substitute ht .none cs).mp hw
      · obtain ⟨v, hv, -⟩ := hrest
        exact absurd ⟨v, hv⟩ hnot
      · exact ⟨u :: w :: chain, ⟨hu, v, hv, hword, hrest⟩, Nat.succ_le_succ hlen⟩
  · rintro ⟨_ | ⟨u, _ | ⟨w, chain⟩⟩, hchain, hlen⟩
    · cases hlen
    · exact absurd (Nat.le_of_succ_le_succ hlen) (Nat.not_succ_le_zero n)
    · obtain ⟨hu, v, hv, hword, hrest⟩ := hchain
      exact ⟨w :: chain, ⟨(hasWord_substitute ht .none cs).mpr ⟨u, hu, .inr ⟨v, hv, hword⟩⟩, hrest⟩,
        Nat.le_of_succ_le_succ hlen⟩

theorem exists_chain_iff_changed :
    (∃ chain, t.IsChain cs chain ∧ 1 ≤ chain.length) ↔ (t.substitute none cs).2 = true := by
  rw [substitute_changed_iff .none]
  constructor
  · rintro ⟨_ | ⟨w, chain⟩, hchain, hlen⟩
    · cases hlen
    · obtain ⟨hw, v, hv, -⟩ := hchain
      exact ⟨w, hw, v, hv⟩
  · rintro ⟨w, hw, v, hv⟩
    exact ⟨[w], ⟨hw, v, hv, trivial⟩, Nat.le_refl 1⟩

/-- **Passes are too few exactly for a chain of as many symbols.** -/
theorem settle_eq_none_iff (ht : t.Unquoted) {passes : Nat} :
    t.settle passes cs = none ↔ ∃ chain, t.IsChain cs chain ∧ passes ≤ chain.length := by
  induction passes generalizing cs with
  | zero => exact ⟨fun _ => ⟨[], trivial, Nat.le_refl 0⟩, fun _ => rfl⟩
  | succ passes ih =>
    rw [settle_succ]
    cases hchanged : (t.substitute none cs).2 with
    | false =>
      rw [if_neg Bool.false_ne_true]
      refine ⟨fun h => (by cases h), fun ⟨chain, hchain, hlen⟩ => ?_⟩
      have hone := exists_chain_iff_changed.mp ⟨chain, hchain, by omega⟩
      rw [hchanged] at hone
      cases hone
    | true =>
      rw [if_pos rfl, ih]
      cases passes with
      | zero =>
        exact ⟨fun _ => exists_chain_iff_changed.mpr hchanged,
          fun _ => ⟨[], trivial, Nat.le_refl 0⟩⟩
      | succ n => exact exists_chain_substitute ht n

/-! ## Expansion in full -/

/-- `Expands t quote cs out`: the text `cs` with every symbol outside quotes replaced by its text,
expanded in turn, and everything else as it is. `quote` is the quote that is open before the
text. -/
inductive Expands (t : SymbolTable) : Option Char → List Char → List Char → Prop
  | nil (quote : Option Char) : Expands t quote [] []
  | symbol {w v rest text out : List Char} (hw : Text.IsWord w) (hrest : Text.EndsWord rest)
      (hv : t.HasText w v) (htext : Expands t none v text) (hout : Expands t none rest out) :
      Expands t none (w ++ rest) (text ++ out)
  | word {w rest out : List Char} (hw : Text.IsWord w) (hrest : Text.EndsWord rest)
      (hv : ¬ ∃ v, t.HasText w v) (hout : Expands t none rest out) :
      Expands t none (w ++ rest) (w ++ out)
  | other {quote : Option Char} {c : Char} {rest out : List Char}
      (hc : quote = none → Text.isNameChar c = false)
      (hout : Expands t (Text.quoteAfter quote c) rest out) : Expands t quote (c :: rest) (c :: out)

/-- What a word becomes. -/
def ExpandsWord (t : SymbolTable) (w out : List Char) : Prop :=
  (∃ v, t.HasText w v ∧ t.Expands none v out) ∨ (¬ ∃ v, t.HasText w v) ∧ out = w

theorem expands_nil : t.Expands quote [] out ↔ out = [] := by
  constructor
  · generalize hnil : ([] : List Char) = cs
    rintro (_ | ⟨hw, -⟩ | ⟨hw, -⟩ | _)
    · exact rfl
    · exact absurd (List.append_eq_nil_iff.mp hnil.symm).1 hw.1
    · exact absurd (List.append_eq_nil_iff.mp hnil.symm).1 hw.1
    · cases hnil
  · rintro rfl
    exact .nil quote

theorem expands_word_append (hw : Text.IsWord w) (hrest : Text.EndsWord rest) :
    t.Expands none (w ++ rest) out ↔
      ∃ first last, out = first ++ last ∧ t.ExpandsWord w first ∧ t.Expands none rest last := by
  constructor
  · generalize htext : w ++ rest = cs
    rintro (_ | ⟨hu, hends, hv, hfirst, hlast⟩ | ⟨hu, hends, hv, hlast⟩ | ⟨hc, -⟩)
    · exact absurd (List.append_eq_nil_iff.mp htext).1 hw.1
    · obtain ⟨rfl, rfl⟩ := hw.append_inj hu hrest hends htext
      exact ⟨_, _, rfl, .inl ⟨_, hv, hfirst⟩, hlast⟩
    · obtain ⟨rfl, rfl⟩ := hw.append_inj hu hrest hends htext
      exact ⟨_, _, rfl, .inr ⟨hv, rfl⟩, hlast⟩
    · exact absurd htext (hw.append_ne_cons (hc rfl))
  · rintro ⟨first, last, rfl, ⟨v, hv, hfirst⟩ | ⟨hv, rfl⟩, hlast⟩
    · exact .symbol hw hrest hv hfirst hlast
    · exact .word hw hrest hv hlast

theorem expands_cons (hc : quote = none → Text.isNameChar c = false) :
    t.Expands quote (c :: rest) out ↔ ∃ last, out = c :: last ∧
      t.Expands (Text.quoteAfter quote c) rest last := by
  constructor
  · generalize htext : c :: rest = cs
    rintro (_ | ⟨hw, -⟩ | ⟨hw, -⟩ | ⟨-, hlast⟩)
    · cases htext
    · exact absurd htext.symm (hw.append_ne_cons (hc rfl))
    · exact absurd htext.symm (hw.append_ne_cons (hc rfl))
    · obtain ⟨rfl, rfl⟩ := List.cons.inj htext
      exact ⟨_, rfl, hlast⟩
  · rintro ⟨last, rfl, hlast⟩
    exact .other hc hlast

/-- The expansion of two texts side by side. -/
theorem expands_append (hx : ∀ c ∈ x, Text.isQuote c = false) (hrest : Text.EndsWord rest) :
    t.Expands none (x ++ rest) out ↔
      ∃ first last, out = first ++ last ∧ t.Expands none x first ∧ t.Expands none rest last := by
  generalize hnone : (none : Option Char) = quote
  induction quote, x using Text.words_induction generalizing out with
  | nil quote =>
    simp [expands_nil]
  | word w x hw hends ih =>
    have hx : ∀ c ∈ x, Text.isQuote c = false := fun c hc => hx c (List.mem_append_right w hc)
    rw [List.append_assoc, expands_word_append hw (hends.append hrest)]
    constructor
    · rintro ⟨first, last, rfl, hfirst, hlast⟩
      obtain ⟨middle, last, rfl, hmiddle, hlast⟩ := (ih hx rfl).mp hlast
      exact ⟨first ++ middle, last, by rw [List.append_assoc],
        (expands_word_append hw hends).mpr ⟨first, middle, rfl, hfirst, hmiddle⟩, hlast⟩
    · rintro ⟨_, last, rfl, hparts, hlast⟩
      obtain ⟨first, middle, rfl, hfirst, hmiddle⟩ := (expands_word_append hw hends).mp hparts
      exact ⟨first, middle ++ last, by rw [List.append_assoc], hfirst,
        (ih hx rfl).mpr ⟨middle, last, rfl, hmiddle, hlast⟩⟩
  | other quote c x hc ih =>
    subst hnone
    obtain ⟨hopen, hx⟩ := List.forall_mem_cons.mp hx
    rw [List.cons_append, expands_cons hc]
    rw [Text.quoteAfter_none hopen] at ih ⊢
    constructor
    · rintro ⟨_, rfl, hparts⟩
      obtain ⟨first, last, rfl, hfirst, hlast⟩ := (ih hx rfl).mp hparts
      refine ⟨c :: first, last, rfl, ?_, hlast⟩
      rw [expands_cons hc, Text.quoteAfter_none hopen]
      exact ⟨first, rfl, hfirst⟩
    · rintro ⟨_, last, rfl, hparts, hlast⟩
      rw [expands_cons hc, Text.quoteAfter_none hopen] at hparts
      obtain ⟨first, rfl, hfirst⟩ := hparts
      exact ⟨first ++ last, rfl, (ih hx rfl).mpr ⟨first, last, rfl, hfirst, hlast⟩⟩

/-- A text without symbols stays. -/
theorem expands_of_unchanged (h : (t.substitute quote cs).2 = false) :
    t.Expands quote cs out ↔ out = cs := by
  induction quote, cs using Text.words_induction generalizing out with
  | nil quote => exact expands_nil
  | word w rest hw hrest ih =>
    rw [substitute_word hw hrest] at h
    obtain ⟨hword, hunchanged⟩ := Bool.or_eq_false_iff.mp h
    have hnot : ¬ ∃ v, t.HasText w v := by
      rw [← isSome_replacement, hword]
      exact Bool.false_ne_true
    simp [expands_word_append hw hrest, ExpandsWord, not_exists.mp hnot, ih hunchanged]
  | other quote c rest hc ih =>
    rw [substitute_cons hc] at h
    simp [expands_cons hc, ih h]

/-- One pass over a word. -/
theorem expands_replacement (hw : Text.IsWord w) :
    t.Expands none ((t.replacement w).getD w) out ↔ t.ExpandsWord w out := by
  unfold ExpandsWord
  cases h : t.replacement w with
  | none =>
    have hnot := replacement_eq_none.mp h
    have hword : t.Expands none (w ++ []) out ↔ _ := expands_word_append hw .nil
    rw [List.append_nil] at hword
    simp [hword, ExpandsWord, not_exists.mp hnot, expands_nil]
  | some v =>
    have hv := replacement_eq_some.mp h
    have huniq (v' : List Char) (hv' : t.HasText w v') : v' = v :=
      Option.some_inj.mp ((replacement_eq_some.mpr hv').symm.trans h)
    rw [Option.getD_some]
    constructor
    · exact fun hout => .inl ⟨v, hv, hout⟩
    · rintro (⟨v', hv', hout⟩ | ⟨hnot, -⟩)
      · rwa [huniq v' hv'] at hout
      · exact absurd ⟨v, hv⟩ hnot

/-- **A pass does not change what a text is in full.** -/
theorem expands_substitute (ht : t.Unquoted) :
    t.Expands quote (t.substitute quote cs).1 out ↔ t.Expands quote cs out := by
  induction quote, cs using Text.words_induction generalizing out with
  | nil quote => rw [substitute]
  | word w rest hw hrest ih =>
    have hx : ∀ c ∈ (t.replacement w).getD w, Text.isQuote c = false := by
      cases h : t.replacement w with
      | none => exact hw.isQuote_eq_false
      | some v => exact ht.isQuote_eq_false (replacement_eq_some.mp h)
    rw [substitute_word hw hrest, expands_append hx (endsWord_substitute hrest),
      expands_word_append hw hrest]
    simp only [expands_replacement hw, ih]
  | other quote c rest hc ih =>
    rw [substitute_cons hc]
    simp only [expands_cons hc, ih]

/-- **What passes settle on is the text in full.** -/
theorem expands_iff_of_settle (ht : t.Unquoted) {passes : Nat} {m : List Char}
    (h : t.settle passes cs = some m) : t.Expands none cs out ↔ out = m := by
  induction passes generalizing cs with
  | zero => cases h
  | succ passes ih =>
    rw [settle_succ] at h
    cases hchanged : (t.substitute none cs).2 with
    | false =>
      rw [hchanged, if_neg Bool.false_ne_true, substitute_of_unchanged hchanged] at h
      cases h
      exact expands_of_unchanged hchanged
    | true =>
      rw [hchanged, if_pos rfl] at h
      rw [← expands_substitute ht]
      exact ih h

/-- Nothing is left to replace. -/
theorem unchanged_of_settle {passes : Nat} {m : List Char} (h : t.settle passes cs = some m) :
    (t.substitute none m).2 = false := by
  induction passes generalizing cs with
  | zero => cases h
  | succ passes ih =>
    rw [settle_succ] at h
    cases hchanged : (t.substitute none cs).2 with
    | false =>
      rw [hchanged, if_neg Bool.false_ne_true, substitute_of_unchanged hchanged] at h
      cases h
      exact hchanged
    | true =>
      rw [hchanged, if_pos rfl] at h
      exact ih h

end SymbolTable

/-- **Symbols are expanded in full, up to chains of 31.** Let no text of a symbol have a quote. If
no chain of symbols that begins in a text has more than 31 members, the text is resolved, and the
result is the one expansion in full. If one has 32 or more, as where symbols refer to each other in
a cycle, the text is refused. What a text is resolved to is resolved to itself. -/
theorem resolve_iff_chains_and_expands (t : SymbolTable) (ht : t.Unquoted) (text : String) :
    ((∀ chain, t.IsChain text.toList chain → chain.length ≤ 31) →
      ∃ out, t.resolve text = .ok out ∧ ∀ cs, t.Expands none text.toList cs ↔ cs = out.toList) ∧
    ((∃ chain, t.IsChain text.toList chain ∧ 32 ≤ chain.length) →
      t.resolve text = .error (.cycle (Text.strip text))) ∧
    ∀ out, t.resolve text = .ok out → t.resolve out = .ok out := by
  refine ⟨fun hshort => ?_, fun hlong => ?_, fun out hout => ?_⟩
  · cases hsettle : t.settle SymbolTable.maxPasses text.toList with
    | none =>
      obtain ⟨chain, hchain, hlen⟩ := (SymbolTable.settle_eq_none_iff ht).mp hsettle
      exact absurd (Nat.le_trans hlen (hshort chain hchain)) (by decide)
    | some m =>
      refine ⟨String.ofList m, SymbolTable.resolve_eq_ok.mpr ?_, fun cs => ?_⟩
      · rw [hsettle, String.toList_ofList]
      · rw [String.toList_ofList]
        exact SymbolTable.expands_iff_of_settle ht hsettle
  · have hnone : t.settle SymbolTable.maxPasses text.toList = none :=
      (SymbolTable.settle_eq_none_iff ht).mpr hlong
    rw [SymbolTable.resolve, hnone]
  · have hsettle := SymbolTable.resolve_eq_ok.mp hout
    exact SymbolTable.resolve_eq_ok.mpr
      (SymbolTable.settle_of_unchanged (SymbolTable.unchanged_of_settle hsettle))

/-- Symbols of one letter, of which each one has the next one for its text, and the last one a
number. -/
def SymbolTable.ladder : List Char → SymbolTable
  | [] => []
  | [c] => [{ name := String.ofList [c], value := some "7", line := default }]
  | c :: d :: rest =>
    { name := String.ofList [c], value := some (String.ofList [d]), line := default } ::
      ladder (d :: rest)

/-- The longest chain that is resolved, next to a quoted word and a number with the same letter, and
the shortest one that is not. -/
theorem resolve_iff_chains_and_expands_limit :
    let t := SymbolTable.ladder "abcdefghijklmnopqrstuvwxyzABCDE".toList
    let t' := SymbolTable.ladder "abcdefghijklmnopqrstuvwxyzABCDEF".toList
    t.length = 31 ∧ t'.length = 32 ∧ t.Unquoted ∧ t'.Unquoted ∧
    (∀ cs, t.Expands none "1a+a \"a\"".toList cs ↔ cs = "1a+7 \"a\"".toList) ∧
    t'.resolve "1a+a" = .error (.cycle "1a+a") := by
  intro t t'
  have hquotes : t.Unquoted := by decide +kernel
  have hquotes' : t'.Unquoted := by decide +kernel
  have hresolve : t.resolve "1a+a \"a\"" = .ok "1a+7 \"a\"" := by decide +kernel
  have hshort (chain : List (List Char)) (hchain : t.IsChain "1a+a \"a\"".toList chain) :
      chain.length ≤ 31 := by
    refine Nat.le_of_not_lt fun hlong => ?_
    have hsettle := SymbolTable.resolve_eq_ok.mp hresolve
    rw [SymbolTable.maxPasses, (SymbolTable.settle_eq_none_iff hquotes).mpr ⟨chain, hchain, hlong⟩]
      at hsettle
    cases hsettle
  have hlong : ∃ chain, t'.IsChain "1a+a".toList chain ∧ 32 ≤ chain.length :=
    (SymbolTable.settle_eq_none_iff hquotes').mp (by decide +kernel)
  obtain ⟨out, hout, hexpands⟩ := (resolve_iff_chains_and_expands t hquotes "1a+a \"a\"").1 hshort
  rw [hresolve] at hout
  cases hout
  exact ⟨by decide +kernel, by decide +kernel, hquotes, hquotes', hexpands,
    (resolve_iff_chains_and_expands t' hquotes' "1a+a").2.1 hlong⟩

end Retarget
