import Retarget.Proofs.Statement.Literals
import Retarget.Proofs.Symbol.Directive

/-!
# Quoted arguments of directives

Between quotes a character is written as it is, after a backslash, by the letter of a control
character or by its code. One scanner looks for the closing quote and another one decodes what
stands before it; both take the characters in the same portions, so that every text comes back from
each of its spellings, whatever follows the closing quote.

* `Text.Spelling`, `Text.Spelled`: how characters and texts are written;
* `Text.Spelled.closeQuote_eq`, `Text.Spelled.unescapeChars_eq`: the two scanners;
* `Directive.takeQuoted_between`: both together;
* `Directive.parse_argument`: directives with arguments in quotes, with their blanks.
-/

namespace Retarget

namespace Text

/-- Control characters and the letters that stand for them after a backslash. -/
def controls : List (Char × Char) := [('\n', 'n'), ('\r', 'r'), ('\t', 't'), (Char.ofNat 0, '0')]

/-- The ways to write a character between two quotes `q`. -/
inductive Spelling (q : Char) : Char → List Char → Prop
  | literal {c : Char} (hslash : c ≠ '\\') (hquote : c ≠ q) : Spelling q c [c]
  | escaped {c : Char} (hc : c ∉ ['n', 'r', 't', '0', 'x']) : Spelling q c ['\\', c]
  | control {c letter : Char} (hc : (c, letter) ∈ controls) : Spelling q c ['\\', letter]
  | code {c high low : Char} {d e : Nat} (hhigh : DigitFor 16 d high) (hlow : DigitFor 16 e low)
      (hc : c.toNat = 16 * d + e) : Spelling q c ['\\', 'x', high, low]

/-- The ways to write a text between two quotes `q`. -/
inductive Spelled (q : Char) : List Char → List Char → Prop
  | nil : Spelled q [] []
  | cons {c : Char} {w s body : List Char} (hc : Spelling q c w) (hs : Spelled q s body) :
      Spelled q (c :: s) (w ++ body)

/-- A text between two quotes. -/
def between (q : Char) (body : List Char) : List Char := q :: (body ++ [q])

variable {q c : Char} {w s body acc : List Char}

/-! ## The closing quote -/

theorem closeQuote_cons (hslash : c ≠ '\\') (cs : List Char) :
    closeQuote q acc (c :: cs) =
      if c == q then some (acc.reverse, cs) else closeQuote q (c :: acc) cs := by
  rw [closeQuote.eq_def]
  split <;> simp_all

theorem closeQuote_escaped (c : Char) (cs : List Char) :
    closeQuote q acc ('\\' :: c :: cs) = closeQuote q (c :: '\\' :: acc) cs := by
  rw [closeQuote]

/-- The search for the closing quote goes on after a character. -/
theorem Spelling.closeQuote_eq (h : Spelling q c w) (hq : isQuote q = true) (rest : List Char) :
    closeQuote q acc (w ++ rest) = closeQuote q (w.reverse ++ acc) rest := by
  cases h with
  | literal hslash hquote =>
    rw [List.singleton_append, closeQuote_cons hslash, if_neg (by simpa using hquote)]
    rfl
  | escaped hc => exact closeQuote_escaped c rest
  | control hc => exact closeQuote_escaped _ rest
  | @code high low d e hhigh hlow hc =>
    -- The digits are neither quotes nor backslashes.
    have hdigit {x : Char} {n : Nat} (hx : DigitFor 16 n x) (cs acc : List Char) :
        closeQuote q acc (x :: cs) = closeQuote q (x :: acc) cs := by
      have hname : isNameChar x = true :=
        (Spells.single hx).isNameChar_eq (Nat.le_refl 16) x List.mem_cons_self
      have hslash : x ≠ '\\' := by
        rintro rfl
        cases hname
      have hquote : x ≠ q := by
        rintro rfl
        rw [isNameChar_of_isQuote hq] at hname
        cases hname
      rw [closeQuote_cons hslash, if_neg (by simpa using hquote)]
    calc closeQuote q acc ('\\' :: 'x' :: high :: low :: rest)
        = closeQuote q ('x' :: '\\' :: acc) (high :: low :: rest) := closeQuote_escaped 'x' _
      _ = closeQuote q (low :: high :: 'x' :: '\\' :: acc) rest := by rw [hdigit hhigh, hdigit hlow]

theorem Spelled.closeQuote_eq (h : Spelled q s body) (hq : isQuote q = true) (tail : List Char) :
    closeQuote q acc (body ++ q :: tail) = some (acc.reverse ++ body, tail) := by
  induction h generalizing acc with
  | nil =>
    have hslash : q ≠ '\\' := by
      rintro rfl
      cases hq
    rw [List.nil_append, closeQuote_cons hslash, if_pos (beq_self_eq_true q), List.append_nil]
  | cons hc hs ih =>
    rw [List.append_assoc, hc.closeQuote_eq hq, ih, List.reverse_append, List.reverse_reverse,
      List.append_assoc]

/-! ## Decoding -/

theorem unescapeChars_escaped (hc : c ∉ ['n', 'r', 't', '0', 'x']) (rest : List Char) :
    unescapeChars ('\\' :: c :: rest) = c :: unescapeChars rest := by
  simp only [List.mem_cons, List.not_mem_nil, or_false, not_or] at hc
  obtain ⟨hn, hr, ht, hzero, hx⟩ := hc
  rw [unescapeChars] <;> assumption

/-- A character is read back before any others. -/
theorem Spelling.unescapeChars_eq (h : Spelling q c w) (rest : List Char) :
    unescapeChars (w ++ rest) = c :: unescapeChars rest := by
  cases h with
  | literal hslash hquote => exact unescapeChars_cons hslash rest
  | escaped hc => exact unescapeChars_escaped hc rest
  | control hc =>
    simp only [controls, List.mem_cons, Prod.mk.injEq, List.not_mem_nil, or_false] at hc
    rcases hc with ⟨rfl, rfl⟩ | ⟨rfl, rfl⟩ | ⟨rfl, rfl⟩ | ⟨rfl, rfl⟩ <;> simp [unescapeChars]
  | @code high low d e hhigh hlow hc =>
    have hchar : Char.ofNat (16 * d + e) = c := by rw [← hc, Char.ofNat_toNat]
    simp [unescapeChars, hhigh.digitIn_eq (Nat.le_refl 16), hlow.digitIn_eq (Nat.le_refl 16), hchar]

theorem Spelled.unescapeChars_eq (h : Spelled q s body) : unescapeChars body = s := by
  induction h with
  | nil => rw [unescapeChars]
  | cons hc hs ih => rw [hc.unescapeChars_eq, ih]

end Text

namespace Directive

variable {q : Char} {s body rest : List Char} {word : String} {line : SourceLine}
  {level chosen : Nat} {color paint : Option Color}

/-! ## Arguments -/

/-- A quoted text is read back, before any other text. -/
theorem takeQuoted_between (hq : Text.isQuote q = true) (h : Text.Spelled q s body)
    (tail : List Char) :
    takeQuoted (Text.between q body ++ tail) = some (String.ofList s, tail) := by
  have hstart : Text.trimStart (Text.between q body ++ tail) = q :: (body ++ q :: tail) := by
    rw [Text.between, List.cons_append, Text.trimStart_cons (Text.isBlank_of_isQuote hq),
      List.append_assoc]
    rfl
  rw [takeQuoted, hstart]
  dsimp only
  rw [if_pos hq, h.closeQuote_eq hq, List.reverse_nil, List.nil_append, Option.map_some,
    h.unescapeChars_eq]

theorem takeQuoted_alone (hq : Text.isQuote q = true) (h : Text.Spelled q s body) :
    takeQuoted (Text.between q body) = some (String.ofList s, []) := by
  rw [← takeQuoted_between hq h [], List.append_nil]

theorem takeQuoted_blanks (gap : Blanks) (cs : List Char) :
    takeQuoted (gap.1 ++ cs) = takeQuoted cs := by
  rw [takeQuoted, Text.trimStart, List.dropWhile_append_of_pos gap.2, ← Text.trimStart,
    ← takeQuoted]

theorem onlyQuoted_between (hq : Text.isQuote q = true) (h : Text.Spelled q s body)
    (word : String) : onlyQuoted word (Text.between q body) = .ok (String.ofList s) := by
  rw [onlyQuoted, takeQuoted_alone hq h]
  rfl

/-- The directives with exactly one quoted text. -/
def quotedWords : List (String × (String → Directive)) :=
  [("include", includeFile), ("error", fun s => raise (some s)), ("require", require),
    ("use-scope", useScope), ("deactivate-scope", deactivateScope)]

theorem parseWord_quoted {make : String → Directive} (h : (word, make) ∈ quotedWords)
    (hrest : rest ≠ []) : parseWord word rest = (onlyQuoted word rest).map make := by
  have hempty : rest.isEmpty = false := List.isEmpty_eq_false_iff.mpr hrest
  simp only [quotedWords, List.mem_cons, Prod.mk.injEq, List.not_mem_nil, or_false] at h
  rcases h with ⟨rfl, rfl⟩ | ⟨rfl, rfl⟩ | ⟨rfl, rfl⟩ | ⟨rfl, rfl⟩ | ⟨rfl, rfl⟩
  case inr.inl =>
    rw [parseWord, hempty]
    rfl
  all_goals rw [parseWord]

/-! ## Scopes -/

/-- The word before the lead of a scope. -/
def leadWord : List Char := ['p', 'r', 'e', 'f', 'i', 'x']

/-- The lead of a scope as it is written, with its blanks. -/
def leadText (gap gap' : Blanks) (q : Char) (body : List Char) : List Char :=
  leadWord ++ (gap.1 ++ '=' :: (gap'.1 ++ Text.between q body))

theorem leadText_eq (gap gap' : Blanks) :
    leadText gap gap' q body = (leadWord ++ (gap.1 ++ '=' :: gap'.1)) ++ Text.between q body := by
  simp [leadText]

theorem parseLead_leadText (hq : Text.isQuote q = true) (h : Text.Spelled q s body)
    (gap gap' : Blanks) : parseLead (leadText gap gap' q body) = some (String.ofList s) := by
  have hword : "prefix".toList = leadWord := rfl
  have hfirst (cs : List Char) : leadWord.isPrefixOf (leadWord ++ cs) = true :=
    List.isPrefixOf_iff_prefix.mpr (List.prefix_append _ _)
  have hstart (cs : List Char) : Text.trimStart (gap.1 ++ '=' :: cs) = '=' :: cs := by
    rw [Text.trimStart, List.dropWhile_append_of_pos gap.2, ← Text.trimStart,
      Text.trimStart_cons rfl]
  rw [parseLead, leadText, hword, if_pos (hfirst _), List.drop_left, hstart]
  simp only [takeQuoted_blanks, takeQuoted_alone hq h]
  rfl

theorem parseWord_scope (hq : Text.isQuote q = true) (h : Text.Spelled q s body) :
    parseWord "create-scope" (Text.between q body) =
      .ok (createScope (String.ofList s) NamedScope.defaultLead) := by
  rw [parseWord, takeQuoted_alone hq h]
  rfl

theorem parseWord_scope_lead {q' : Char} {s' body' : List Char} (hq : Text.isQuote q = true)
    (h : Text.Spelled q s body) (hq' : Text.isQuote q' = true) (h' : Text.Spelled q' s' body')
    (gap gap' gap'' : Blanks) :
    parseWord "create-scope" (Text.between q body ++ (gap.1 ++ leadText gap' gap'' q' body')) =
      .ok (createScope (String.ofList s) (String.ofList s')) := by
  have htrim : Text.trim (gap.1 ++ leadText gap' gap'' q' body') =
      leadText gap' gap'' q' body' := by
    rw [Text.trim_blanks_append gap.2, leadText_eq]
    exact Text.trim_append_of_head (by rintro c ⟨⟩; rfl) (Text.trim_between hq' body')
      (List.cons_ne_nil _ _)
  have hne : (leadText gap' gap'' q' body').isEmpty = false := rfl
  rw [parseWord, takeQuoted_between hq h]
  dsimp only
  rw [htrim, hne, parseLead_leadText hq' h']
  rfl

/-! ## Printing -/

/-- A word of a printing directive before its message, and the blanks after it. -/
structure PrintOption where
  word : List Char
  gap : Gap
  ne_nil : word ≠ []
  unquoted : ∀ c ∈ word.head?, Text.isQuote c = false
  plain : ∀ c ∈ word, Text.isBlank c = false

namespace PrintOption

/-- Words of a printing directive as they are written. -/
def writeAll (options : List PrintOption) : List Char := options.flatMap fun o => o.word ++ o.gap.1

/-- The level and the colour that words of a printing directive choose. -/
def chooseAll (level : Nat) (color : Option Color) (options : List PrintOption) :
    Except DirectiveError (Nat × Option Color) :=
  options.foldlM (fun chosen o => printWord chosen.1 chosen.2 o.word) (level, color)

theorem isBlank_head (hq : Text.isQuote q = true) (options : List PrintOption) (body : List Char) :
    ∀ c ∈ (writeAll options ++ Text.between q body).head?, Text.isBlank c = false := by
  intro c hc
  cases options with
  | nil =>
    cases hc
    exact Text.isBlank_of_isQuote hq
  | cons o options =>
    obtain ⟨d, w, hw⟩ := List.exists_cons_of_ne_nil o.ne_nil
    rw [writeAll, List.flatMap_cons, hw] at hc
    cases hc
    exact o.plain c (hw ▸ List.mem_cons_self)

theorem parsePrint_eq (hq : Text.isQuote q = true) (h : Text.Spelled q s body)
    {options : List PrintOption} (hoptions : chooseAll level color options = .ok (chosen, paint)) :
    parsePrint level color (writeAll options ++ Text.between q body) =
      .ok (.print chosen paint (String.ofList s)) := by
  induction options generalizing level color with
  | nil =>
    cases hoptions
    have honly : onlyQuoted "print" (q :: (body ++ [q])) = .ok (String.ofList s) :=
      onlyQuoted_between hq h "print"
    show parsePrint _ _ (q :: (body ++ [q])) = _
    rw [parsePrint, if_pos hq, honly]
    rfl
  | cons o options ih =>
    obtain ⟨⟨level', color'⟩, hword, hoptions⟩ :=
      bind_eq_ok.mp ((List.foldlM_cons ..).symm.trans hoptions)
    obtain ⟨c, w, hw⟩ := List.exists_cons_of_ne_nil o.ne_nil
    obtain ⟨d, gap, hgap⟩ := List.exists_cons_of_ne_nil o.gap.2.1
    obtain ⟨hd, hblank⟩ : Text.isBlank d = true ∧ ∀ b ∈ gap, Text.isBlank b = true :=
      List.forall_mem_cons.mp (hgap ▸ o.gap.2.2)
    have hquote : ¬ Text.isQuote c = true := by simpa [hw] using o.unquoted
    have hsplit (more : List Char) : Text.splitWord (c :: (w ++ d :: (gap ++ more))) =
        (c :: w, some (gap ++ more)) :=
      Text.splitWord_append (x := c :: w) (hw ▸ o.plain) hd _
    have htext : writeAll (o :: options) ++ Text.between q body =
        c :: (w ++ d :: (gap ++ (writeAll options ++ Text.between q body))) := by
      rw [writeAll, List.flatMap_cons, hw, hgap, ← writeAll]
      simp
    rw [htext, parsePrint, if_neg hquote, hsplit, Text.afterWord, hsplit]
    dsimp only
    rw [← hw, hword]
    dsimp only
    rw [Option.getD_some, Text.trimStart, List.dropWhile_append_of_pos hblank, ← Text.trimStart,
      Text.trimStart_of_head (isBlank_head hq options _)]
    exact ih hoptions

end PrintOption

/-! ## Lines -/

/-- The directives with quoted texts. -/
def argumentWords : List String := quotedWords.map Prod.fst ++ ["print", "create-scope"]

/-- A directive whose last argument is in quotes. -/
theorem parse_argument (hword : word ∈ argumentWords) (hq : Text.isQuote q = true) {x : List Char}
    (hhead : ∀ c ∈ (x ++ Text.between q body).head?, Text.isBlank c = false) (lead after : Blanks)
    (gap : Gap) :
    parse (written lead word gap (x ++ Text.between q body ++ after.1)) line =
      Error.liftAt line (parseWord word (x ++ Text.between q body)) := by
  have hall : ∀ word ∈ argumentWords, isDirectiveWord word = true ∧
      Condition.isWord word = false := by decide
  obtain ⟨hdirective, hcondition⟩ := hall word hword
  have htrim : Text.trim (x ++ Text.between q body ++ after.1) = x ++ Text.between q body := by
    rw [Text.trim_append_blanks after.2]
    exact Text.trim_append_of_head hhead (Text.trim_between hq body) (List.cons_ne_nil _ _)
  have hne : Text.trim (x ++ Text.between q body ++ after.1) ≠ [] := by
    rw [htrim]
    exact List.append_ne_nil_of_right_ne_nil x (List.cons_ne_nil _ _)
  rw [parse_written hdirective hne, htrim, read, hcondition]
  rfl

end Directive

/-- **Quoted arguments are read back**, from every spelling: by the reader of quoted texts before
any other text, and in every directive that takes one. A printing directive may have words for its
level and its colour before the text. -/
theorem quoted_arguments_read_back {q : Char} (hq : Text.isQuote q = true) {s body : List Char}
    (h : Text.Spelled q s body) (line : SourceLine) (lead after : Blanks) (gap : Gap) :
    let arg := Text.between q body
    let parse (word : String) (rest : List Char) :=
      Directive.parse (Directive.written lead word gap (rest ++ after.1)) line
    (∀ tail, Directive.takeQuoted (arg ++ tail) = some (String.ofList s, tail)) ∧
    (∀ d ∈ Directive.quotedWords, parse d.1 arg = .ok (d.2 (String.ofList s))) ∧
    (∀ options level color, Directive.PrintOption.chooseAll 0 none options = .ok (level, color) →
      parse "print" (Directive.PrintOption.writeAll options ++ arg) =
        .ok (.print level color (String.ofList s))) ∧
    parse "create-scope" arg = .ok (.createScope (String.ofList s) NamedScope.defaultLead) ∧
    ∀ (q' : Char) (s' body' : List Char), Text.isQuote q' = true → Text.Spelled q' s' body' →
      ∀ gap₁ gap₂ gap₃ : Blanks,
        parse "create-scope" (arg ++ (gap₁.1 ++ Directive.leadText gap₂ gap₃ q' body')) =
          .ok (.createScope (String.ofList s) (String.ofList s')) := by
  intro arg parse
  have hhead (x : List Char) : ∀ c ∈ (arg ++ x).head?, Text.isBlank c = false := by
    rintro c ⟨⟩
    exact Text.isBlank_of_isQuote hq
  have halone (word : String) (hword : word ∈ Directive.argumentWords) :
      parse word arg = Error.liftAt line (Directive.parseWord word arg) :=
    Directive.parse_argument (x := []) hword hq (by simpa using hhead []) lead after gap
  refine ⟨Directive.takeQuoted_between hq h, ?_, ?_, ?_, ?_⟩
  · rintro ⟨word, make⟩ hd
    have hword : word ∈ Directive.argumentWords :=
      List.mem_append_left _ (List.mem_map_of_mem (f := Prod.fst) hd)
    have hne : arg ≠ [] := List.cons_ne_nil _ _
    have hread : Directive.parseWord word arg = .ok (make (String.ofList s)) := by
      rw [Directive.parseWord_quoted hd hne, Directive.onlyQuoted_between hq h]
      rfl
    rw [halone word hword, hread]
    rfl
  · intro options level color hoptions
    have hstart := Directive.PrintOption.isBlank_head hq options body
    have hread : Directive.parseWord "print" (Directive.PrintOption.writeAll options ++ arg) =
        .ok (.print level color (String.ofList s)) := by
      rw [Directive.parseWord, Text.trimStart_of_head hstart,
        Directive.PrintOption.parsePrint_eq hq h hoptions]
    calc parse "print" (Directive.PrintOption.writeAll options ++ arg)
        = Error.liftAt line
          (Directive.parseWord "print" (Directive.PrintOption.writeAll options ++ arg)) :=
          Directive.parse_argument (by decide) hq hstart lead after gap
      _ = .ok (.print level color (String.ofList s)) := by rw [hread]; rfl
  · rw [halone "create-scope" (by decide), Directive.parseWord_scope hq h]
    rfl
  · intro q' s' body' hq' h' gap₁ gap₂ gap₃
    have htext : arg ++ (gap₁.1 ++ Directive.leadText gap₂ gap₃ q' body') =
        (arg ++ (gap₁.1 ++ (Directive.leadWord ++ (gap₂.1 ++ '=' :: gap₃.1)))) ++
          Text.between q' body' := by
      rw [Directive.leadText_eq, ← List.append_assoc, ← List.append_assoc, List.append_assoc arg]
    have hparse : parse "create-scope" (arg ++ (gap₁.1 ++ Directive.leadText gap₂ gap₃ q' body')) =
        Error.liftAt line (Directive.parseWord "create-scope"
          (arg ++ (gap₁.1 ++ Directive.leadText gap₂ gap₃ q' body'))) := by
      rw [htext]
      exact Directive.parse_argument (by decide) hq' (by rw [← htext]; exact hhead _) lead after gap
    rw [hparse, Directive.parseWord_scope_lead hq h hq' h']
    rfl

/-- All ways to write a character, in three directives. -/
theorem quoted_arguments_read_back_mixed :
    let s := "say \"é\"\n\\"
    Text.Spelled '"' s.toList "s\\ay \\\"\\xE9\\x22\\n\\\\".toList ∧
    Directive.takeQuoted "\"s\\ay \\\"\\xE9\\x22\\n\\\\\"\"".toList = some (s, ['"']) ∧
    Directive.parse " #error  \"s\\ay \\\"\\xE9\\x22\\n\\\\\"" default = .ok (.raise (some s)) ∧
    Directive.parse " #print  2 Red \"s\\ay \\\"\\xE9\\x22\\n\\\\\"" default =
      .ok (.print 2 (some .red) s) ∧
    Directive.parse " #create-scope  \"s\\ay \\\"\\xE9\\x22\\n\\\\\" prefix = '\\'_'" default =
      .ok (.createScope s "'_") := by
  intro s
  have hdigit {d : Nat} {c : Char} (hd : d < 16) (hc : c = d.digitChar ∨ c = d.digitChar.toUpper) :
      Text.DigitFor 16 d c := ⟨hd, hc⟩
  have hs : Text.Spelled '"' "say \"é\"\n\\".toList "s\\ay \\\"\\xE9\\x22\\n\\\\".toList :=
    .cons (w := ['s']) (.literal (by decide) (by decide)) <|
    .cons (w := ['\\', 'a']) (.escaped (by decide)) <|
    .cons (w := ['y']) (.literal (by decide) (by decide)) <|
    .cons (w := [' ']) (.literal (by decide) (by decide)) <|
    .cons (w := ['\\', '"']) (.escaped (by decide)) <|
    .cons (w := ['\\', 'x', 'E', '9'])
      (.code (d := 14) (e := 9) (hdigit (by decide) (by decide)) (hdigit (by decide) (by decide))
        (by decide)) <|
    .cons (w := ['\\', 'x', '2', '2'])
      (.code (d := 2) (e := 2) (hdigit (by decide) (by decide)) (hdigit (by decide) (by decide))
        (by decide)) <|
    .cons (w := ['\\', 'n']) (.control (by decide)) <|
    .cons (w := ['\\', '\\']) (.escaped (by decide)) .nil
  have hlead : Text.Spelled '\'' "'_".toList "\\'_".toList :=
    .cons (w := ['\\', '\'']) (.escaped (by decide))
      (.cons (w := ['_']) (.literal (by decide) (by decide)) .nil)
  let gap (n : Nat) : Gap := ⟨List.replicate (n + 1) ' ', by simp, (Blanks.spaces (n + 1)).2⟩
  let options : List Directive.PrintOption :=
    [⟨['2'], gap 0, by decide, by simp [Text.isQuote], List.forall_mem_singleton.mpr rfl⟩,
      ⟨['R', 'e', 'd'], gap 0, by decide, by simp [Text.isQuote], by simpa using ⟨rfl, rfl, rfl⟩⟩]
  obtain ⟨htake, hwords, hprint, -, hscope⟩ :=
    quoted_arguments_read_back (q := '"') rfl hs default (.spaces 1) (.spaces 0) (gap 1)
  refine ⟨hs, htake ['"'],
    hwords ("error", fun s => .raise (some s)) (by simp [Directive.quotedWords]), ?_, ?_⟩
  · exact hprint options 2 (some .red) (by decide)
  · exact hscope '\'' "'_".toList "\\'_".toList rfl hlead (.spaces 1) (.spaces 1) (.spaces 1)

end Retarget
