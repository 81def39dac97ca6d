import Retarget.Proofs.Text.Blank

/-!
# Reading a label before a statement

A label ends at its colon, so a line that starts with a label is read in two parts: the label, and
the rest of the line as if it stood alone (`Reader.readLine_label`). The colon belongs to no word,
which keeps the symbols of the two parts apart.

* `Reader.readStatements_label`: the statements after a label;
* `Reader.ReadsOne`: texts that hold one statement and no label.
-/

namespace Retarget

namespace Text

variable {c : Char} {a b cs : List Char}

/-! ## Comments -/

/-- A text without quotes and semicolons keeps its code before that of the rest. -/
theorem splitComment_append (h : ∀ c ∈ a, isQuote c = false ∧ c ≠ ';') (b : List Char) :
    splitComment (a ++ b) = (a ++ (splitComment b).1, (splitComment b).2) := by
  have hfrom : splitCommentFrom none (a ++ b) =
      (a ++ (splitCommentFrom none b).1, (splitCommentFrom none b).2) := by
    induction a with
    | nil => rfl
    | cons c a ih =>
      obtain ⟨⟨hquote, hsemicolon⟩, hrest⟩ := List.forall_mem_cons.mp h
      have hopen : quoteAfter none c = none := by simp [quoteAfter, hquote]
      rw [List.cons_append, splitCommentFrom, if_neg (by simp [hsemicolon]), hopen, ih hrest]
      rfl
  unfold splitComment
  rw [hfrom]

end Text

/-- A label is a word, with or without a dot before it. -/
theorem exists_word_of_isLabel {m : List Char} (h : isLabel m = true) :
    ∃ word, word ≠ [] ∧ (∀ c ∈ word, Text.isNameChar c = true) ∧ (m = word ∨ m = '.' :: word) := by
  unfold isLabel at h
  split at h
  · cases h
  · rename_i c rest _
    split at h
    · rename_i hletter
      have hc : Text.isNameChar c = true := by simp [Text.isNameChar, hletter]
      exact ⟨c :: rest, List.cons_ne_nil c rest,
        List.forall_mem_cons.mpr ⟨hc, List.all_eq_true.mp h⟩, .inl rfl⟩
    · split at h
      · rename_i hmark
        obtain ⟨hrest, hall⟩ := Bool.and_eq_true_iff.mp h
        rcases Bool.or_eq_true_iff.mp hmark with hdot | hline
        · rw [beq_iff_eq.mp hdot]
          exact ⟨rest, by simpa using hrest, List.all_eq_true.mp hall, .inr rfl⟩
        · rw [beq_iff_eq.mp hline]
          exact ⟨'_' :: rest, List.cons_ne_nil _ rest,
            List.forall_mem_cons.mpr ⟨rfl, List.all_eq_true.mp hall⟩, .inl rfl⟩
      · cases h
  · cases h

/-- No quote, no semicolon and no blank can be part of a label. -/
theorem plain_of_isLabel {m : List Char} (h : isLabel m = true) {c : Char} (hc : c ∈ m) :
    (Text.isQuote c = false ∧ c ≠ ';') ∧ Text.isBlank c = false := by
  obtain ⟨word, -, hword, hm⟩ := exists_word_of_isLabel h
  have hname (hc : c ∈ word) : (Text.isQuote c = false ∧ c ≠ ';') ∧ Text.isBlank c = false := by
    have hchar := hword c hc
    refine ⟨⟨?_, ?_⟩, Text.isBlank_of_isNameChar hchar⟩
    · cases hquote : Text.isQuote c with
      | false => rfl
      | true =>
        rw [Text.isNameChar_of_isQuote hquote] at hchar
        cases hchar
    · rintro rfl
      exact absurd hchar (by decide)
  rcases hm with rfl | rfl
  · exact hname hc
  · rcases List.mem_cons.mp hc with rfl | hc
    · decide
    · exact hname hc

namespace Reader

variable {r : Reader} {l m cs rest : List Char}

theorem splitName_dot (cs : List Char) :
    splitName ('.' :: cs) = if (cs.takeWhile Text.isWordChar).isEmpty then none
      else some ('.' :: cs.takeWhile Text.isWordChar,
        cs.drop (cs.takeWhile Text.isWordChar).length) := rfl

theorem splitName_of_ne (h : ∀ more, cs ≠ '.' :: more) :
    splitName cs = if (cs.takeWhile Text.isWordChar).isEmpty then none
      else some (cs.takeWhile Text.isWordChar, cs.drop (cs.takeWhile Text.isWordChar).length) := by
  unfold splitName
  split
  rename_i dot rest hparts
  split at hparts
  · rename_i more
    exact absurd rfl (h more)
  · cases hparts
    rfl

/-- The name of a label ends at the colon. -/
theorem splitName_label (h : isLabel m = true) (rest : List Char) :
    splitName (m ++ ':' :: rest) = some (m, ':' :: rest) := by
  obtain ⟨word, hne, hword, hm⟩ := exists_word_of_isLabel h
  have htake : (word ++ ':' :: rest).takeWhile Text.isWordChar = word := by
    have hall : ∀ c ∈ word, Text.isWordChar c = true := fun c hc =>
      Text.isWordChar_of_isNameChar (hword c hc)
    rw [List.takeWhile_append_of_pos hall, List.takeWhile_cons_of_neg (by decide), List.append_nil]
  have hnonempty : ¬ word.isEmpty = true := by simpa using hne
  rcases hm with rfl | rfl
  · have hdot : ∀ more, m ++ ':' :: rest ≠ '.' :: more := by
      intro more hmore
      obtain ⟨c, word, rfl⟩ := List.exists_cons_of_ne_nil hne
      cases hmore
      exact absurd (hword '.' List.mem_cons_self) (by decide)
    rw [splitName_of_ne hdot, htake, if_neg hnonempty, List.drop_left]
  · rw [List.cons_append, splitName_dot, htake, if_neg hnonempty, List.drop_left]

theorem labelName?_label (h : isLabel m = true) (rest : List Char) :
    labelName? (m ++ ':' :: rest) = some m := by
  unfold labelName?
  rw [splitName_label h]
  rfl

/-- A label that may be used. -/
def MayName (r : Reader) (m : List Char) : Prop :=
  isLabel m = true ∧ r.env.isa.registers.contains (String.ofList m) = false

instance : Decidable (r.MayName m) := inferInstanceAs (Decidable (_ ∧ _))

theorem checkLabel_of_mayName (h : r.MayName m) : r.checkLabel m = .ok () := by
  unfold checkLabel
  rw [h.1, h.2]
  rfl

theorem readStatement_label (h : r.MayName m) (rest : List Char) :
    r.readStatement (m ++ ':' :: rest) =
      .ok (m ++ [':'], .label (String.ofList m), m.length + 1) := by
  unfold readStatement
  rw [labelName?_label h.1]
  dsimp only
  rw [checkLabel_of_mayName h]
  rfl

/-- The statements after a label are read as if it were not there. -/
theorem readStatements_label (h : r.MayName m) (rest : List Char) :
    r.readStatements (m ++ ':' :: rest) = do
      let more ← r.readStatements (Text.trimStart rest)
      return (m ++ [':'], .label (String.ofList m)) :: more := by
  have hread := readStatement_label h rest
  obtain ⟨c, word, rfl, -⟩ := startsName_of_isLabel h.1
  have hdrop : (word ++ ':' :: rest).drop ((c :: word).length + 1 - 1) = rest := by simp
  rw [List.cons_append] at hread ⊢
  rw [readStatements, hread, ok_bind]
  dsimp only
  rw [hdrop]

/-- A text that is not empty, starts with no label and holds nothing after its first statement. -/
structure ReadsOne (r : Reader) (cs : List Char) : Prop where
  ne_nil : cs ≠ []
  no_label : labelName? cs = none
  alone : ∀ text statement length, r.readStatement cs = .ok (text, statement, length) →
    Text.trimStart (cs.drop length) = []

theorem readsOne_iff : r.ReadsOne cs ↔ cs ≠ [] ∧ labelName? cs = none ∧
    ∀ length ∈ ((r.readStatement cs).map fun read => read.2.2).toOption,
      Text.trimStart (cs.drop length) = [] := by
  constructor
  · rintro ⟨hne, hlabel, halone⟩
    refine ⟨hne, hlabel, fun length hlength => ?_⟩
    obtain ⟨read, hread, rfl⟩ := map_eq_ok.mp (toOption_eq_some.mp hlength)
    exact halone read.1 read.2.1 read.2.2 hread
  · rintro ⟨hne, hlabel, halone⟩
    refine ⟨hne, hlabel, fun text statement length hread => halone length ?_⟩
    exact toOption_eq_some.mpr (map_eq_ok.mpr ⟨_, hread, rfl⟩)

instance : Decidable (r.ReadsOne cs) := decidable_of_iff' _ readsOne_iff

theorem readStatements_of_readsOne (h : r.ReadsOne cs) :
    r.readStatements cs = do
      let read ← r.readStatement cs
      return [(read.1, read.2.1)] := by
  obtain ⟨c, rest, rfl⟩ := List.exists_cons_of_ne_nil h.ne_nil
  rw [readStatements]
  cases hread : r.readStatement (c :: rest) with
  | error e => rfl
  | ok read =>
    have hafter := h.alone read.1 read.2.1 read.2.2 hread
    have hdrop : Text.trimStart (rest.drop (read.2.2 - 1)) = [] := by
      cases hlength : read.2.2 with
      | succ length =>
        rw [hlength] at hafter
        exact hafter
      | zero =>
        rw [hlength] at hafter
        exact List.dropWhile_eq_nil_iff.mpr fun d hd =>
          List.dropWhile_eq_nil_iff.mp hafter d (List.mem_cons_of_mem c hd)
    rw [ok_bind, ok_bind]
    dsimp only
    rw [hdrop, readStatements]
    rfl

/-! ## Lines -/

/-- The items of a line that holds a statement. -/
theorem readLine_of_cons {α : Type} {s : List Char} {code : String} {x : Except Error α}
    {first : α → List Char × Statement} {more : α → List (List Char × Statement)}
    (hs : Text.splitComment s = (s, [])) (hcode : r.symbols.resolve (String.ofList s) = .ok code)
    (hread : r.readStatements (Text.trim code.toList) = x >>= fun a => pure (first a :: more a)) :
    r.readLine s = x >>= fun a =>
      pure ((first a :: more a).map fun y => r.item "" (String.ofList y.1) y.2) := by
  have hlift : Error.liftAt r.line (r.symbols.resolve (String.ofList s)) = .ok code := by
    rw [hcode]
    rfl
  unfold readLine
  rw [hs]
  dsimp only
  rw [hlift, ok_bind, hread]
  cases x <;> rfl

/-- A line whose symbols refer to each other. -/
theorem readLine_of_cycle {s : List Char} (hs : Text.splitComment s = (s, []))
    (hcycle : r.symbols.settle SymbolTable.maxPasses s = none) :
    ∃ e, r.readLine s = .error e ∧ e.kind = .preprocessor := by
  have hresolve : r.symbols.resolve (String.ofList s) =
      .error (.cycle (Text.strip (String.ofList s))) := by
    rw [SymbolTable.resolve, String.toList_ofList, hcycle]
  unfold readLine
  rw [hs]
  dsimp only
  rw [hresolve]
  exact ⟨_, rfl, rfl⟩

/-- The item of a label. -/
def labelItem (r : Reader) (m : List Char) : Item :=
  r.item "" (String.ofList (m ++ [':'])) (.label (String.ofList m))

theorem splitComment_label {l s : List Char} (hl : isLabel l = true)
    (hs : Text.splitComment s = (s, [])) :
    Text.splitComment (l ++ ':' :: s) = (l ++ ':' :: s, []) := by
  have hplain : ∀ c ∈ l ++ [':'], Text.isQuote c = false ∧ c ≠ ';' := by
    intro c hc
    rcases List.mem_append.mp hc with hc | hc
    · exact (plain_of_isLabel hl hc).1
    · rw [List.mem_singleton.mp hc]
      decide
  have hsplit := Text.splitComment_append hplain s
  rwa [hs, List.append_assoc, List.singleton_append] at hsplit

/-- The symbols of a label and of what follows it are replaced on their own. -/
theorem resolve_label {t : SymbolTable} (hm : isLabel m = true)
    (hl : t.resolve (String.ofList l) = .ok (String.ofList m)) (s : List Char) :
    t.settle SymbolTable.maxPasses (l ++ ':' :: s) =
      (t.settle SymbolTable.maxPasses s).map (m ++ ':' :: ·) := by
  rw [SymbolTable.resolve_eq_ok, String.toList_ofList, String.toList_ofList] at hl
  exact SymbolTable.settle_append (by rfl) (by rfl) (fun c hc => (plain_of_isLabel hm hc).1.1) hl s

theorem trim_label (hm : isLabel m = true) (s : List Char) :
    Text.trim (m ++ ':' :: s) = m ++ ':' :: Text.trimEnd s := by
  have hstart : Text.trimStart (m ++ ':' :: s) = m ++ ':' :: s := by
    obtain ⟨c, word, rfl, hc, -⟩ := startsName_of_isLabel hm
    exact Text.trimStart_cons hc.isBlank_eq_false _
  rw [Text.trim, hstart, Text.trimEnd_append_cons (by rfl)]

/-- A line that starts with a label is no directive. -/
theorem trim_label_ne_sharp (hm : isLabel m = true) (s body : List Char) :
    Text.trim (m ++ ':' :: s) ≠ '#' :: body := by
  rw [trim_label hm]
  obtain ⟨c, word, rfl, hc, -⟩ := startsName_of_isLabel hm
  intro heq
  cases heq
  exact absurd hc (by unfold StartsName; decide)

/-- **A line that starts with a label is read in two parts**, the label and the rest of the line. -/
theorem readLine_label (hl : isLabel l = true) (hm : r.MayName m)
    (hlabel : r.symbols.resolve (String.ofList l) = .ok (String.ofList m)) {s : List Char}
    (hs : Text.splitComment s = (s, [])) {code : String}
    (hcode : r.symbols.resolve (String.ofList s) = .ok code) :
    r.readLine (l ++ ':' :: s) = do
      let statements ← r.readStatements (Text.trim code.toList)
      return r.labelItem m :: statements.map fun y => r.item "" (String.ofList y.1) y.2 := by
  have hwhole : r.symbols.resolve (String.ofList (l ++ ':' :: s)) =
      .ok (String.ofList (m ++ ':' :: code.toList)) := by
    rw [SymbolTable.resolve_eq_ok, String.toList_ofList] at hcode ⊢
    rw [resolve_label hm.1 hlabel, hcode, String.toList_ofList]
    rfl
  have hread : r.readStatements (Text.trim (String.ofList (m ++ ':' :: code.toList)).toList) =
      r.readStatements (Text.trim code.toList) >>= fun more =>
        pure ((m ++ [':'], .label (String.ofList m)) :: more) := by
    rw [String.toList_ofList, trim_label hm.1, readStatements_label hm, Text.trimStart_trimEnd]
  exact readLine_of_cons (splitComment_label hl hs) hwhole hread

/-- A line with a label only. -/
theorem readLine_label_only (hl : isLabel l = true) (hm : r.MayName m)
    (hlabel : r.symbols.resolve (String.ofList l) = .ok (String.ofList m)) :
    r.readLine (l ++ [':']) = .ok [r.labelItem m] := by
  have hempty : r.symbols.resolve (String.ofList []) = .ok "" := by
    rw [SymbolTable.resolve_eq_ok, String.toList_ofList]
    exact SymbolTable.settle_of_unchanged (by rw [SymbolTable.substitute])
  rw [readLine_label hl hm hlabel rfl hempty]
  have hnone : r.readStatements (Text.trim "".toList) = .ok [] := by
    show r.readStatements [] = .ok []
    rw [readStatements]
    rfl
  rw [hnone]
  rfl

/-- A line with one statement. -/
theorem readLine_of_readsOne {s : List Char} (hs : Text.splitComment s = (s, [])) {code : String}
    (hcode : r.symbols.resolve (String.ofList s) = .ok code)
    (hone : r.ReadsOne (Text.trim code.toList)) :
    r.readLine s = do
      let read ← r.readStatement (Text.trim code.toList)
      return [r.item "" (String.ofList read.1) read.2.1] :=
  readLine_of_cons hs hcode (readStatements_of_readsOne hone)

/-- A line with a label and one statement. -/
theorem readLine_label_of_readsOne (hl : isLabel l = true) (hm : r.MayName m)
    (hlabel : r.symbols.resolve (String.ofList l) = .ok (String.ofList m)) {s : List Char}
    (hs : Text.splitComment s = (s, [])) {code : String}
    (hcode : r.symbols.resolve (String.ofList s) = .ok code)
    (hone : r.ReadsOne (Text.trim code.toList)) :
    r.readLine (l ++ ':' :: s) = do
      let read ← r.readStatement (Text.trim code.toList)
      return [r.labelItem m, r.item "" (String.ofList read.1) read.2.1] := by
  rw [readLine_label hl hm hlabel hs hcode, readStatements_of_readsOne hone]
  cases r.readStatement (Text.trim code.toList) <;> rfl

end Reader

end Retarget
