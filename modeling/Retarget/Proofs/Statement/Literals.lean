import Retarget.Proofs.Statement.Labelled
import Retarget.Proofs.Symbol.Resolution
import Retarget.Proofs.Text.Operands

/-!
# Quoted texts in data statements

A text is written between double quotes, with a backslash before each double quote and each
backslash in it. The readers of quoted texts know this backslash, but those that look for the
comment and for the commas do not: to them every double quote opens or closes. So a text is read
back if, counting its own quotes in this way, no semicolon stands outside quotes and no comma
outside quotes and brackets, and only then.

* `Text.Uncommented`, `Text.Unseparated`: the two conditions, in the order of the readers;
* `Text.unescapeChars_escape`: what is written is what is read;
* `DataLine.charCount_le`, `DataLine.charCount_lt`: operands hold no more characters than the text,
  fewer if it is cut;
* `Reader.readLine_data`: a line with a data directive.
-/

namespace Retarget

namespace Text

/-! ## Writing -/

/-- A character of a quoted text as it is written. -/
def escapeChar (c : Char) : List Char := if c = '\\' ∨ c = '"' then ['\\', c] else [c]

/-- The body of a quoted text as it is written. -/
def escape (cs : List Char) : List Char := cs.flatMap escapeChar

/-- A text between double quotes. -/
def quoted (cs : List Char) : List Char := '"' :: (escape cs ++ ['"'])

/-- No semicolon stands outside quotes; `quote` is the quote that is open before the text. -/
def Uncommented (quote : Option Char) : List Char → Prop
  | [] => True
  | c :: cs => ¬ (quote = none ∧ c = ';') ∧ Uncommented (quoteAfter quote c) cs

/-- No comma stands outside quotes and brackets; `depth` is that of the brackets before the text. -/
def Unseparated (quote : Option Char) (depth : Int32) : List Char → Prop
  | [] => True
  | c :: cs => ¬ (quote = none ∧ c = ',' ∧ depth = 0) ∧
      Unseparated (quoteAfter quote c) (if quote.isNone then depth + bracketStep c else depth) cs

instance decidableUncommented (quote : Option Char) :
    (cs : List Char) → Decidable (Uncommented quote cs)
  | [] => .isTrue trivial
  | c :: cs =>
    have := decidableUncommented (quoteAfter quote c) cs
    inferInstanceAs (Decidable (_ ∧ _))

instance decidableUnseparated (quote : Option Char) (depth : Int32) :
    (cs : List Char) → Decidable (Unseparated quote depth cs)
  | [] => .isTrue trivial
  | c :: cs =>
    have := decidableUnseparated (quoteAfter quote c)
      (if quote.isNone then depth + bracketStep c else depth) cs
    inferInstanceAs (Decidable (_ ∧ _))

/-- Neither the reader of comments nor that of operands cuts the text when it stands between double
quotes. -/
def Survives (cs : List Char) : Prop := Uncommented (some '"') cs ∧ Unseparated (some '"') 0 cs

instance : DecidablePred Survives := fun _ => inferInstanceAs (Decidable (_ ∧ _))

variable {quote : Option Char} {depth : Int32} {c : Char} {cs x rest current : List Char}

/-- Other characters leave a double quote open. -/
theorem quoteAfter_double (h : c ≠ '"') : quoteAfter (some '"') c = some '"' := by
  simp [quoteAfter, h]

theorem uncommented_of_not_mem (h : ';' ∉ cs ∨ quote = some '"' ∧ '"' ∉ cs) :
    Uncommented quote cs := by
  induction cs generalizing quote with
  | nil => trivial
  | cons c cs ih =>
    simp only [List.mem_cons, not_or] at h
    rcases h with ⟨hc, hcs⟩ | ⟨rfl, hc, hcs⟩
    · exact ⟨fun h => hc h.2.symm, ih (.inl hcs)⟩
    · exact ⟨by simp, ih (.inr ⟨quoteAfter_double (Ne.symm hc), hcs⟩)⟩

theorem unseparated_of_not_mem (h : ',' ∉ cs ∨ quote = some '"' ∧ '"' ∉ cs) :
    Unseparated quote depth cs := by
  induction cs generalizing quote depth with
  | nil => trivial
  | cons c cs ih =>
    simp only [List.mem_cons, not_or] at h
    rcases h with ⟨hc, hcs⟩ | ⟨rfl, hc, hcs⟩
    · exact ⟨fun h => hc h.2.1.symm, ih (.inl hcs)⟩
    · exact ⟨by simp, ih (.inr ⟨quoteAfter_double (Ne.symm hc), hcs⟩)⟩

@[simp]
theorem escape_nil : escape [] = [] := rfl

@[simp]
theorem escape_cons (c : Char) (cs : List Char) : escape (c :: cs) = escapeChar c ++ escape cs :=
  rfl

@[simp]
theorem escape_append (cs x : List Char) : escape (cs ++ x) = escape cs ++ escape x :=
  List.flatMap_append

/-- A character is written last, with at most a backslash before it. -/
theorem exists_escapeChar (c : Char) : ∃ before, escapeChar c = before ++ [c] ∧
    (before = [] ∧ c ≠ '\\' ∧ c ≠ '"' ∨ before = ['\\'] ∧ (c = '\\' ∨ c = '"')) := by
  unfold escapeChar
  split
  · rename_i h
    exact ⟨['\\'], rfl, .inr ⟨rfl, h⟩⟩
  · rename_i h
    exact ⟨[], rfl, .inl ⟨rfl, not_or.mp h⟩⟩

theorem mem_of_mem_escape (h : c ∈ escape cs) : c = '\\' ∨ c ∈ cs := by
  obtain ⟨d, hd, hc⟩ := List.mem_flatMap.mp h
  obtain ⟨before, heq, hbefore⟩ := exists_escapeChar d
  rw [heq, List.mem_append, List.mem_singleton] at hc
  rcases hc with hc | rfl
  · rcases hbefore with ⟨rfl, -⟩ | ⟨rfl, -⟩
    · cases hc
    · exact .inl (List.mem_singleton.mp hc)
  · exact .inr hd

theorem unescapeChars_cons (h : c ≠ '\\') (cs : List Char) :
    unescapeChars (c :: cs) = c :: unescapeChars cs := by
  rw [unescapeChars.eq_def]
  split <;> simp_all

/-- What is written is what is read. -/
theorem unescapeChars_escape (cs rest : List Char) :
    unescapeChars (escape cs ++ rest) = cs ++ unescapeChars rest := by
  induction cs with
  | nil => rfl
  | cons c cs ih =>
    obtain ⟨before, heq, ⟨rfl, hslash, -⟩ | ⟨rfl, rfl | rfl⟩⟩ := exists_escapeChar c
    · rw [escape_cons, heq, List.nil_append, List.singleton_append, List.cons_append,
        unescapeChars_cons hslash, ih, List.cons_append]
    · rw [escape_cons, heq, List.append_assoc]
      simp [unescapeChars, ih]
    · rw [escape_cons, heq, List.append_assoc]
      simp [unescapeChars, ih]

theorem unescapeChars_escape_self (cs : List Char) : unescapeChars (escape cs) = cs := by
  simpa [unescapeChars] using unescapeChars_escape cs []

/-! ## Blanks -/

theorem trimStart_escape (cs : List Char) : trimStart (escape cs) = escape (trimStart cs) := by
  induction cs with
  | nil => rfl
  | cons c cs ih =>
    cases hc : isBlank c with
    | true =>
      have hplain : escapeChar c = [c] := by
        unfold escapeChar
        split
        · rename_i h
          rcases h with rfl | rfl <;> cases hc
        · rfl
      rw [escape_cons, hplain, List.singleton_append, trimStart, List.dropWhile_cons_of_pos hc,
        ← trimStart, ih, trimStart, trimStart, List.dropWhile_cons_of_pos hc]
    | false =>
      obtain ⟨before, heq, ⟨rfl, -⟩ | ⟨rfl, -⟩⟩ := exists_escapeChar c
      · rw [trimStart_cons hc, escape_cons, heq]
        exact trimStart_cons hc _
      · rw [trimStart_cons hc, escape_cons, heq]
        exact trimStart_cons rfl _

theorem trimEnd_escape (cs : List Char) : trimEnd (escape cs) = escape (trimEnd cs) := by
  induction cs using List.reverseRecOn with
  | nil => rfl
  | append_singleton cs c ih =>
    rw [escape_append, escape_cons, escape_nil, List.append_nil]
    obtain ⟨before, heq, hbefore⟩ := exists_escapeChar c
    cases hc : isBlank c with
    | true =>
      have hblank (ds : List Char) : trimEnd (ds ++ [c]) = trimEnd ds := by
        rw [trimEnd, List.reverse_append, List.reverse_singleton, List.singleton_append,
          List.dropWhile_cons_of_pos hc, trimEnd]
      rcases hbefore with ⟨rfl, -⟩ | ⟨rfl, rfl | rfl⟩
      · rw [heq, List.nil_append, hblank, hblank, ih]
      · cases hc
      · cases hc
    | false =>
      have hstays (ds : List Char) : trimEnd (ds ++ [c]) = ds ++ [c] := trimEnd_append_cons hc ds []
      rw [heq, ← List.append_assoc, hstays, hstays, escape_append, escape_cons, heq, escape_nil,
        List.append_nil, List.append_assoc]

theorem trimEnd_quoted (cs : List Char) : trimEnd (escape cs ++ ['"']) = escape cs ++ ['"'] :=
  trimEnd_append_cons rfl (escape cs) []

theorem trim_quoted (cs : List Char) : trim (quoted cs) = quoted cs := by
  rw [quoted, trim_cons rfl, trimEnd_quoted]

/-! ## Scanning -/

/-- A backslash opens and closes nothing. -/
theorem quoteAfter_backslash (h : IsOpen quote) : quoteAfter quote '\\' = quote := by
  cases quote with
  | none => rfl
  | some q =>
    rw [quoteAfter, if_neg]
    intro heq
    rw [← beq_iff_eq.mp heq] at h
    exact absurd (h '\\' rfl) (by decide)

/-- The reader of comments takes a character as if it were written without a backslash. -/
theorem splitCommentFrom_escapeChar (h : IsOpen quote) (c : Char) (rest : List Char) :
    splitCommentFrom quote (escapeChar c ++ rest) =
      if quote = none ∧ c = ';' then ([], rest)
      else (escapeChar c ++ (splitCommentFrom (quoteAfter quote c) rest).1,
        (splitCommentFrom (quoteAfter quote c) rest).2) := by
  have hstep (c : Char) (rest : List Char) : splitCommentFrom quote (c :: rest) =
      if quote = none ∧ c = ';' then ([], rest)
      else (c :: (splitCommentFrom (quoteAfter quote c) rest).1,
        (splitCommentFrom (quoteAfter quote c) rest).2) := by
    rw [splitCommentFrom]
    simp only [Bool.and_eq_true, Option.isNone_iff_eq_none, beq_iff_eq]
  obtain ⟨before, heq, ⟨rfl, -⟩ | ⟨rfl, hc⟩⟩ := exists_escapeChar c
  · rw [heq]
    exact hstep c rest
  · have hsemicolon : ¬ (quote = none ∧ c = ';') := by rcases hc with rfl | rfl <;> simp
    have hslash : ¬ (quote = none ∧ '\\' = ';') := by simp
    rw [heq, List.append_assoc, List.singleton_append, List.singleton_append, hstep, if_neg hslash,
      quoteAfter_backslash h, hstep, if_neg hsemicolon, if_neg hsemicolon]
    rfl

theorem splitOperandsFrom_escapeChar (h : IsOpen quote) (c : Char) (rest : List Char) :
    splitOperandsFrom quote depth current (escapeChar c ++ rest) =
      if quote = none ∧ c = ',' ∧ depth = 0 then
        trim current.reverse :: splitOperandsFrom none 0 [] rest
      else
        splitOperandsFrom (quoteAfter quote c)
          (if quote.isNone then depth + bracketStep c else depth)
          ((escapeChar c).reverse ++ current) rest := by
  obtain ⟨before, heq, ⟨rfl, -⟩ | ⟨rfl, hc⟩⟩ := exists_escapeChar c
  · rw [heq]
    exact splitOperandsFrom_cons quote depth current c rest
  · have hcomma : ¬ (quote = none ∧ c = ',' ∧ depth = 0) := by rcases hc with rfl | rfl <;> simp
    have hslash : ¬ (quote = none ∧ '\\' = ',' ∧ depth = 0) := by simp
    have hdepth : (if quote.isNone = true then depth + bracketStep '\\' else depth) = depth := by
      have hzero : bracketStep '\\' = 0 := rfl
      simp [hzero]
    rw [heq, List.append_assoc, List.singleton_append, List.singleton_append,
      splitOperandsFrom_cons, if_neg hslash, quoteAfter_backslash h, hdepth, splitOperandsFrom_cons,
      if_neg hcomma, if_neg hcomma]
    rfl

/-- The code of a line is its first part. -/
theorem splitCommentFrom_prefix (quote : Option Char) (cs : List Char) :
    (splitCommentFrom quote cs).1 <+: cs := by
  induction cs generalizing quote with
  | nil => exact List.prefix_rfl
  | cons c cs ih =>
    rw [splitCommentFrom]
    split
    · exact List.nil_prefix
    · exact List.cons_prefix_cons.mpr ⟨rfl, ih _⟩

/-- A text without comments between double quotes stays in one piece. -/
theorem splitCommentFrom_escape (h : IsOpen quote) (hcs : Uncommented quote cs) :
    splitCommentFrom quote (escape cs ++ ['"']) = (escape cs ++ ['"'], []) := by
  induction cs generalizing quote with
  | nil =>
    cases quote <;> rfl
  | cons c cs ih =>
    obtain ⟨hc, hcs⟩ := hcs
    rw [escape_cons, List.append_assoc, splitCommentFrom_escapeChar h, if_neg hc,
      ih (h.after c) hcs]

/-- Any other text is cut before one of its semicolons. -/
theorem exists_splitCommentFrom_escape (h : IsOpen quote) (hcs : ¬ Uncommented quote cs)
    (rest : List Char) :
    ∃ x after comment, cs = x ++ ';' :: after ∧
      splitCommentFrom quote (escape cs ++ rest) = (escape x, comment) := by
  induction cs generalizing quote with
  | nil => exact absurd trivial hcs
  | cons c cs ih =>
    rw [escape_cons, List.append_assoc, splitCommentFrom_escapeChar h]
    split
    · rename_i hc
      exact ⟨[], cs, _, by rw [hc.2]; rfl, rfl⟩
    · rename_i hc
      obtain ⟨x, after, comment, rfl, hsplit⟩ := ih (h.after c) fun hrest => hcs ⟨hc, hrest⟩
      exact ⟨c :: x, after, comment, rfl, by rw [hsplit, escape_cons]⟩

/-- A text without separating commas is one operand. -/
theorem splitOperandsFrom_escape (h : IsOpen quote) (hcs : Unseparated quote depth cs) :
    splitOperandsFrom quote depth current (escape cs ++ ['"']) =
      [trim (current.reverse ++ (escape cs ++ ['"']))] := by
  induction cs generalizing quote depth current with
  | nil =>
    cases quote <;> simp [splitOperandsFrom]
  | cons c cs ih =>
    obtain ⟨hc, hcs⟩ := hcs
    rw [escape_cons, List.append_assoc, splitOperandsFrom_escapeChar h, if_neg hc,
      ih (h.after c) hcs]
    simp

theorem isOpen_double : IsOpen (some '"') := by
  rintro q ⟨⟩
  rfl

/-- The operands after a double quote. -/
theorem splitOperands_quote (cs : List Char) :
    splitOperands ('"' :: trimEnd cs) = splitOperandsFrom (some '"') 0 ['"'] (trimEnd cs) := by
  unfold splitOperands
  rw [trim_cons rfl, trimEnd_trimEnd]
  rfl

/-! ## Ends of texts -/

/-- A quote at the start of what is written can only be a single one. -/
theorem of_escape_eq_cons {q : Char} (hq : isQuote q = true) (h : escape cs = q :: rest) :
    q = '\'' ∧ ∃ x, cs = q :: x ∧ rest = escape x := by
  cases cs with
  | nil => cases h
  | cons c cs =>
    obtain ⟨before, heq, ⟨rfl, -, hne⟩ | ⟨rfl, -⟩⟩ := exists_escapeChar c
    · rw [escape_cons, heq] at h
      cases h
      refine ⟨?_, cs, rfl, rfl⟩
      simpa [isQuote, hne] using hq
    · rw [escape_cons, heq] at h
      cases h
      cases hq

/-- The last character of what is written is that of the text. -/
theorem of_escape_eq_concat {q : Char} (h : escape cs = rest ++ [q]) :
    ∃ x before, cs = x ++ [q] ∧ rest = escape x ++ before ∧ (before = [] ∨ before = ['\\']) := by
  rcases List.eq_nil_or_concat cs with rfl | ⟨x, c, rfl⟩
  · simp at h
  · obtain ⟨before, heq, hbefore⟩ := exists_escapeChar c
    rw [List.concat_eq_append, escape_append, escape_cons, escape_nil, List.append_nil, heq,
      ← List.append_assoc] at h
    obtain ⟨hrest, hlast⟩ := List.append_inj' h rfl
    cases List.singleton_inj.mp hlast
    refine ⟨x, before, List.concat_eq_append, hrest.symm, ?_⟩
    rcases hbefore with ⟨hbefore, -⟩ | ⟨hbefore, -⟩
    · exact .inl hbefore
    · exact .inr hbefore

end Text

namespace DataLine

variable {quote : Option Char} {depth : Int32} {arg cs x lead tail current : List Char}

/-! ## Characters of operands -/

theorem of_quotedChars (h : quotedChars arg = some cs) : ∃ q body, Text.isQuote q = true ∧
    Text.trim arg = q :: (body ++ [q]) ∧ cs = Text.unescapeChars body := by
  unfold quotedChars at h
  split at h
  · rename_i q rest htrim
    obtain ⟨hends, h⟩ := Option.ite_none_right_eq_some.mp h
    obtain ⟨hq, hlast⟩ := Bool.and_eq_true_iff.mp hends
    obtain ⟨body, rfl⟩ := List.getLast?_eq_some_iff.mp (beq_iff_eq.mp hlast)
    obtain ⟨-, h⟩ := Option.ite_none_left_eq_some.mp h
    rw [List.dropLast_concat] at h
    exact ⟨q, body, hq, htrim, (Option.some.inj h).symm⟩
  · cases h

theorem quotedChars_quoted (cs : List Char) : quotedChars (Text.quoted cs) = some cs := by
  rw [quotedChars, Text.trim_quoted, Text.quoted]
  simp [Text.unescapeChars_escape_self, Text.isQuote]

/-- How many characters an operand gives. -/
def quotedLength (arg : List Char) : Nat := ((quotedChars arg).map List.length).getD 0

/-- What may stand before and after a part of the text in an operand: the quotes around the text. -/
def IsEdge (cs : List Char) : Prop := cs = [] ∨ cs = ['"']

/-- Blanks are dropped from the part of the text only. -/
theorem exists_trim_edges (hlead : IsEdge lead) (htail : IsEdge tail) (x : List Char) :
    ∃ y, Text.trim (lead ++ (Text.escape x ++ tail)) = lead ++ (Text.escape y ++ tail) ∧
      y.length ≤ x.length := by
  have hend (x : List Char) : (Text.trimEnd x).length ≤ x.length :=
    (Text.trimEnd_sublist x).length_le
  rcases hlead with rfl | rfl <;> rcases htail with rfl | rfl
  · refine ⟨Text.trim x, ?_, (hend _).trans (Text.length_trimStart_le x)⟩
    simp [Text.trim, Text.trimStart_escape, Text.trimEnd_escape]
  · refine ⟨Text.trimStart x, ?_, Text.length_trimStart_le x⟩
    simp [Text.trim_concat (show Text.isBlank '"' = false from rfl), Text.trimStart_escape]
  · refine ⟨Text.trimEnd x, ?_, hend x⟩
    simp [Text.trim_cons (show Text.isBlank '"' = false from rfl), Text.trimEnd_escape]
  · exact ⟨x, Text.trim_quoted x, Nat.le_refl _⟩

/-- Between two quotes are no more characters than in the part of the text. -/
theorem length_unescapeChars_le {q : Char} {body : List Char} (hlead : IsEdge lead)
    (htail : IsEdge tail) (hq : Text.isQuote q = true)
    (h : lead ++ (Text.escape x ++ tail) = q :: (body ++ [q])) :
    (Text.unescapeChars body).length ≤ x.length := by
  have hends {y : List Char} (hy : Text.escape y = body ++ [q]) : (Text.unescapeChars body).length ≤
      y.length := by
    obtain ⟨z, before, rfl, rfl, hbefore⟩ := Text.of_escape_eq_concat hy
    rw [Text.unescapeChars_escape]
    rcases hbefore with rfl | rfl <;> simp [Text.unescapeChars]
  rcases hlead with rfl | rfl <;> rcases htail with rfl | rfl
  · rw [List.nil_append, List.append_nil] at h
    obtain ⟨-, y, rfl, hy⟩ := Text.of_escape_eq_cons hq h
    exact (hends hy.symm).trans (Nat.le_succ _)
  · -- The last quote is a double one, which cannot be the first.
    rw [List.nil_append, ← List.cons_append] at h
    obtain ⟨hx, hlast⟩ := List.append_inj' h rfl
    obtain ⟨hsingle, -⟩ := Text.of_escape_eq_cons hq hx
    rw [hsingle] at hlast
    cases hlast
  · rw [List.append_nil, List.singleton_append] at h
    obtain ⟨-, hx⟩ := List.cons.inj h
    exact hends hx
  · rw [List.singleton_append] at h
    obtain ⟨-, hrest⟩ := List.cons.inj h
    obtain ⟨rfl, -⟩ := List.append_inj' hrest rfl
    rw [Text.unescapeChars_escape_self]

/-- An operand gives no more characters than the part of the text in it has. -/
theorem quotedLength_le (hlead : IsEdge lead) (htail : IsEdge tail) :
    quotedLength (Text.trim (lead ++ (Text.escape x ++ tail))) ≤ x.length := by
  unfold quotedLength
  cases h : quotedChars (Text.trim (lead ++ (Text.escape x ++ tail))) with
  | none => exact Nat.zero_le _
  | some cs =>
    obtain ⟨q, body, hq, htrim, rfl⟩ := of_quotedChars h
    obtain ⟨y, hy, hlength⟩ := exists_trim_edges hlead htail x
    rw [Text.trim_trim, hy] at htrim
    exact (length_unescapeChars_le hlead htail hq htrim).trans hlength

/-- How many characters operands give together. -/
def charCount (args : List (List Char)) : Nat := (args.map quotedLength).sum

theorem charCount_cons (arg : List Char) (args : List (List Char)) :
    charCount (arg :: args) = quotedLength arg + charCount args := by
  rw [charCount, List.map_cons, List.sum_cons, charCount]

/-- What has been read of an operand grows by a character. -/
theorem reverse_escapeChar_append (hcurrent : current.reverse = lead ++ Text.escape x) (c : Char) :
    ((Text.escapeChar c).reverse ++ current).reverse = lead ++ Text.escape (x ++ [c]) := by
  simp [hcurrent]

/-- An operand ends at a comma, and the others begin without a quote. -/
theorem charCount_comma_le (hlead : IsEdge lead)
    (hcurrent : current.reverse = lead ++ Text.escape x) {args : List (List Char)} {n : Nat}
    (hargs : charCount args ≤ n) :
    charCount (Text.trim current.reverse :: args) ≤ x.length + n := by
  have hfirst : quotedLength (Text.trim (lead ++ (Text.escape x ++ []))) ≤ x.length :=
    quotedLength_le hlead (.inl rfl)
  rw [List.append_nil] at hfirst
  rw [charCount_cons, hcurrent]
  omega

/-- All operands together give no more characters than the text has. Here `x` is what has been read
of the operand. -/
theorem charCount_le (h : Text.IsOpen quote) (hlead : IsEdge lead) (htail : IsEdge tail)
    (hcurrent : current.reverse = lead ++ Text.escape x) :
    charCount (Text.splitOperandsFrom quote depth current (Text.escape cs ++ tail)) ≤
      x.length + cs.length := by
  induction cs generalizing quote depth current lead x with
  | nil =>
    have hlast : Text.splitOperandsFrom quote depth current tail =
        [Text.trim (lead ++ (Text.escape x ++ tail))] := by
      rw [← List.append_assoc, ← hcurrent]
      rcases htail with rfl | rfl
      · simp [Text.splitOperandsFrom]
      · cases quote <;> simp [Text.splitOperandsFrom]
    rw [Text.escape_nil, List.nil_append, hlast, charCount_cons]
    exact quotedLength_le hlead htail
  | cons c cs ih =>
    rw [Text.escape_cons, List.append_assoc, Text.splitOperandsFrom_escapeChar h, List.length_cons]
    split
    · have hrest : charCount (Text.splitOperandsFrom none 0 [] (Text.escape cs ++ tail)) ≤
          [].length + cs.length :=
        ih .none (.inl rfl) (rfl : [].reverse = [] ++ Text.escape [])
      rw [List.length_nil, Nat.zero_add] at hrest
      exact (charCount_comma_le hlead hcurrent hrest).trans (by omega)
    · refine (ih (h.after c) hlead (reverse_escapeChar_append hcurrent c)).trans ?_
      rw [List.length_append, List.length_singleton]
      omega

/-- A comma that separates operands is lost. -/
theorem charCount_lt (h : Text.IsOpen quote) (hlead : IsEdge lead) (htail : IsEdge tail)
    (hcurrent : current.reverse = lead ++ Text.escape x) (hcs : ¬ Text.Unseparated quote depth cs) :
    charCount (Text.splitOperandsFrom quote depth current (Text.escape cs ++ tail)) <
      x.length + cs.length := by
  induction cs generalizing quote depth current x with
  | nil => exact absurd trivial hcs
  | cons c cs ih =>
    rw [Text.escape_cons, List.append_assoc, Text.splitOperandsFrom_escapeChar h, List.length_cons]
    split
    · have hrest : charCount (Text.splitOperandsFrom none 0 [] (Text.escape cs ++ tail)) ≤
          [].length + cs.length :=
        charCount_le .none (.inl rfl) htail (rfl : [].reverse = [] ++ Text.escape [])
      rw [List.length_nil, Nat.zero_add] at hrest
      exact (charCount_comma_le hlead hcurrent hrest).trans_lt (by omega)
    · rename_i hc
      refine (ih (h.after c) (reverse_escapeChar_append hcurrent c) fun hrest =>
        hcs ⟨hc, hrest⟩).trans_le ?_
      rw [List.length_append, List.length_singleton]
      omega

end DataLine

/-- Whether an item is a character. -/
def DataItem.isChar : DataItem → Bool
  | char _ => true
  | _ => false

namespace DataLine

variable {directive : String} {line : SourceLine}

/-- The items of a quoted text. -/
def textItems (directive : String) (cs : List Char) : List DataItem :=
  cs.map (fun c => DataItem.char c.toNat) ++ if isTerminated directive then [.terminator] else []

theorem countP_textItems (directive : String) (cs : List Char) :
    (textItems directive cs).countP DataItem.isChar = cs.length := by
  have hchars : (cs.map fun c => DataItem.char c.toNat).countP DataItem.isChar = cs.length := by
    rw [List.countP_map]
    exact List.countP_eq_length.mpr fun c _ => rfl
  have hending : (if isTerminated directive then [DataItem.terminator]
      else []).countP DataItem.isChar = 0 := by
    split <;> rfl
  rw [textItems, List.countP_append, hchars, hending, Nat.add_zero]

/-- The characters among the items are those of the quoted operands. -/
theorem countP_of_readItems {args : List (List Char)} {items : List DataItem}
    (h : readItems directive line args = .ok items) :
    items.countP DataItem.isChar = charCount args := by
  induction args generalizing items with
  | nil =>
    cases h
    rfl
  | cons arg args ih =>
    rw [charCount_cons, quotedLength]
    unfold readItems at h
    cases hchars : quotedChars arg with
    | some cs =>
      rw [hchars] at h
      obtain ⟨rest, hrest, h⟩ := bind_eq_ok.mp h
      have hown := countP_textItems directive cs
      rw [textItems] at hown
      rw [← pure_eq_ok.mp h, List.countP_append, hown, ih hrest]
      rfl
    | none =>
      rw [hchars] at h
      dsimp only at h
      split at h
      · cases h
      · obtain ⟨e, -, h⟩ := bind_eq_ok.mp h
        obtain ⟨rest, hrest, h⟩ := bind_eq_ok.mp h
        rw [← pure_eq_ok.mp h, List.countP_cons_of_neg (by simp [DataItem.isChar]), ih hrest]
        simp

theorem countP_of_read {isa : Isa} {bytes : Nat} {args : List Char} {d : DataLine}
    (h : read isa directive bytes args line = .ok d) :
    d.items.countP DataItem.isChar = charCount (Text.splitOperands args) := by
  unfold read at h
  dsimp only at h
  split at h
  · cases h
  · obtain ⟨items, hitems, h⟩ := bind_eq_ok.mp h
    cases pure_eq_ok.mp h
    exact countP_of_readItems hitems

/-- One quoted text is read in full. -/
theorem read_of_splitOperands {isa : Isa} {bytes : Nat} {args cs : List Char}
    (h : Text.splitOperands args = [Text.quoted cs]) : read isa directive bytes args line =
      .ok { name := s!".{directive}", valueBits := bytes * 8, items := textItems directive cs,
            packed := isa.packing && bytes == 1 } := by
  have hitems : readItems directive line [Text.quoted cs] = .ok (textItems directive cs) := by
    rw [readItems, quotedChars_quoted]
    dsimp only
    rw [readItems, ok_bind, List.append_nil]
    rfl
  unfold read
  rw [h]
  dsimp only
  rw [if_neg (by simp [Text.quoted]), hitems]
  simp [quotedChars_quoted]

end DataLine

/-! ## Lines -/

theorem SymbolTable.resolve_nil (s : String) : SymbolTable.resolve [] s = .ok s := by
  rw [resolve_eq_ok]
  refine settle_of_unchanged (Bool.eq_false_iff.mpr fun hchanged => ?_)
  obtain ⟨u, -, v, -, symbol, hfound, -⟩ := (substitute_changed_iff .none _).mp hchanged
  cases hfound

namespace Reader

variable {r : Reader} {name : String} {bytes : Nat} {args : List Char}

/-- A data directive with its operands. -/
def dataText (name : String) (args : List Char) : List Char := '.' :: (name.toList ++ ' ' :: args)

/-- The names of data directives are words in lower case. -/
theorem name_of_valueBytes (h : DataLine.valueBytes? name = some bytes) :
    name.toList ≠ [] ∧ (∀ c ∈ name.toList, Text.isWordChar c = true) ∧ Text.lower name = name := by
  unfold DataLine.valueBytes? at h
  have hwords : ∀ word ∈ ["byte", "cstr", "asciiz", "2byte", "4byte", "8byte"],
      word.toList ≠ [] ∧ word.toList.all Text.isWordChar = true ∧ Text.lower word = word := by
    decide +kernel
  have hmem : name ∈ ["byte", "cstr", "asciiz", "2byte", "4byte", "8byte"] := by
    split at h <;> first | decide | cases h
  obtain ⟨hne, hall, hlower⟩ := hwords name hmem
  exact ⟨hne, List.all_eq_true.mp hall, hlower⟩

theorem takeWhile_dataText (h : DataLine.valueBytes? name = some bytes) (args : List Char) :
    (name.toList ++ ' ' :: args).takeWhile Text.isWordChar = name.toList := by
  have hblank : ∀ c ∈ (' ' :: args).head?, Text.isWordChar c = false := by
    rintro c ⟨⟩
    rfl
  exact (Text.takeWhile_append_of_ends (name_of_valueBytes h).2.1 hblank).1

theorem splitName_dataText (h : DataLine.valueBytes? name = some bytes) (args : List Char) :
    splitName (dataText name args) = some ('.' :: name.toList, ' ' :: args) := by
  rw [dataText, splitName_dot, takeWhile_dataText h,
    if_neg (by simpa using (name_of_valueBytes h).1), List.drop_left]

theorem labelName?_dataText (h : DataLine.valueBytes? name = some bytes) (args : List Char) :
    labelName? (dataText name args) = none := by
  unfold labelName?
  rw [splitName_dataText h]
  rfl

theorem directiveParts?_dot (cs : List Char) : directiveParts? ('.' :: cs) =
    let name := cs.takeWhile Text.isWordChar
    let after := cs.drop name.length
    if name.isEmpty || !(after.isEmpty || after.head?.any Text.isBlank) ||
      (Text.trim after).contains '\n' then none
    else some (Text.lower (String.ofList name), Text.trim after) := rfl

theorem directiveParts?_dataText (h : DataLine.valueBytes? name = some bytes)
    (htrim : Text.trim args = args) (hbreak : '\n' ∉ args) :
    directiveParts? (dataText name args) = some (name, args) := by
  obtain ⟨hne, -, hlower⟩ := name_of_valueBytes h
  have hargs : Text.trim (' ' :: args) = args := by
    rw [Text.trim, Text.trimStart, List.dropWhile_cons_of_pos rfl, ← Text.trimStart,
      ← Text.trim, htrim]
  rw [dataText, directiveParts?_dot, takeWhile_dataText h]
  dsimp only
  rw [List.drop_left, hargs, String.ofList_toList, hlower, if_neg]
  have hblank : Text.isBlank ' ' = true := rfl
  simpa [hblank, hbreak] using hne

/-- What begins with a quote is not the value of a constant. -/
theorem constantParts?_dataText (h : DataLine.valueBytes? name = some bytes) (more : List Char) :
    constantParts? (dataText name ('"' :: more)) = none := by
  have hstart : Text.trimStart (' ' :: '"' :: more) = '"' :: more := rfl
  have hequ : afterEqu (' ' :: '"' :: more) = none := by
    unfold afterEqu
    rw [hstart]
    dsimp only
    split
    · rename_i q u c rest heq
      cases heq
      have hquote : Text.equalIgnoringCase (String.ofList ['"', q, u]) "equ" = false := by
        rw [Text.equalIgnoringCase, Text.lowerAscii, Text.lowerAscii, beq_eq_false_iff_ne, ne_eq,
          String.ofList_inj, String.toList_ofList]
        exact fun h => absurd (List.cons.inj h).1 (by decide)
      rw [hquote, Bool.and_false, if_neg Bool.false_ne_true]
    · rfl
  unfold constantParts?
  rw [splitName_dataText h]
  dsimp only
  split
  · rename_i v hvalue
    split at hvalue
    · rename_i hsign
      rw [hstart] at hsign
      cases hsign
    · rw [hequ] at hvalue
      cases hvalue
  · rfl

theorem readStatement_data (h : DataLine.valueBytes? name = some bytes) {more : List Char}
    (htrim : Text.trim ('"' :: more) = '"' :: more) (hbreak : '\n' ∉ '"' :: more) :
    r.readStatement (dataText name ('"' :: more)) = do
      let d ← DataLine.read r.env.isa name bytes ('"' :: more) r.line
      return (dataText name ('"' :: more), .data d, (dataText name ('"' :: more)).length) := by
  have hhead : ((dataText name ('"' :: more)).head? == some '.') = true := rfl
  have hdirective : r.readDirective (dataText name ('"' :: more)) = do
      return .data (← DataLine.read r.env.isa name bytes ('"' :: more) r.line) := by
    unfold readDirective
    rw [directiveParts?_dataText h htrim hbreak]
    dsimp only
    -- None of the other directives has the name of a data directive.
    split <;> first | rw [h] | cases h
  unfold readStatement
  rw [labelName?_dataText h]
  dsimp only
  rw [constantParts?_dataText h]
  dsimp only
  rw [if_pos hhead, hdirective]
  cases DataLine.read r.env.isa name bytes ('"' :: more) r.line <;> rfl

/-- No quote and no semicolon can be part of a word. -/
theorem plain_of_isWordChar {c : Char} (h : Text.isWordChar c = true) :
    Text.isQuote c = false ∧ c ≠ ';' := by
  refine ⟨Bool.eq_false_iff.mpr fun hquote => ?_, ?_⟩
  · simp only [Text.isQuote, Bool.or_eq_true, beq_iff_eq] at hquote
    rcases hquote with rfl | rfl <;> exact absurd h (by decide)
  · rintro rfl
    exact absurd h (by decide)

theorem splitComment_dataText (h : DataLine.valueBytes? name = some bytes) (rest : List Char) :
    Text.splitComment (dataText name ('"' :: rest)) =
      (dataText name ('"' :: (Text.splitCommentFrom (some '"') rest).1),
      Text.trim (Text.splitCommentFrom (some '"') rest).2) := by
  have hplain : ∀ c ∈ '.' :: (name.toList ++ [' ']), Text.isQuote c = false ∧ c ≠ ';' := by
    intro c hc
    simp only [List.mem_cons, List.mem_append, List.not_mem_nil, or_false] at hc
    rcases hc with rfl | hc | rfl
    · decide
    · exact plain_of_isWordChar ((name_of_valueBytes h).2.1 c hc)
    · decide
  have hsplit := Text.splitComment_append hplain ('"' :: rest)
  have hquote : Text.splitComment ('"' :: rest) = ('"' :: (Text.splitCommentFrom (some '"') rest).1,
      Text.trim (Text.splitCommentFrom (some '"') rest).2) := rfl
  have htext (args : List Char) : '.' :: (name.toList ++ [' ']) ++ args = dataText name args := by
    simp [dataText]
  rwa [hquote, htext, htext] at hsplit

/-- A line with a data directive, with or without a comment. -/
theorem readLine_data (hsymbols : r.symbols = []) (h : DataLine.valueBytes? name = some bytes)
    {rest body comment : List Char}
    (hsplit : Text.splitCommentFrom (some '"') rest = (body, comment)) (hbreak : '\n' ∉ rest) :
    r.readLine (dataText name ('"' :: rest)) = do
      let d ← DataLine.read r.env.isa name bytes ('"' :: Text.trimEnd body) r.line
      return [r.item (String.ofList (Text.trim comment))
        (String.ofList (dataText name ('"' :: Text.trimEnd body)))
        (.data d)] := by
  have htrim : Text.trim ('"' :: Text.trimEnd body) = '"' :: Text.trimEnd body := by
    rw [Text.trim_cons rfl, Text.trimEnd_trimEnd]
  have hbody : body <+: rest := by
    have hprefix := Text.splitCommentFrom_prefix (some '"') rest
    rwa [hsplit] at hprefix
  have hnone : '\n' ∉ '"' :: Text.trimEnd body :=
    List.not_mem_cons_of_ne_of_not_mem (by decide) fun hmem =>
      hbreak (hbody.mem ((Text.trimEnd_sublist body).mem hmem))
  have hcode : Text.trim (dataText name ('"' :: body)) =
      dataText name ('"' :: Text.trimEnd body) := by
    have hend := Text.trimEnd_append_cons (show Text.isBlank '"' =
      false from rfl) (name.toList ++ [' ']) body
    rw [List.append_assoc, List.append_assoc] at hend
    rw [dataText, Text.trim_cons rfl]
    exact congrArg _ hend
  have hstatement := readStatement_data (r := r) h htrim hnone
  have hone : r.ReadsOne (dataText name ('"' :: Text.trimEnd body)) := by
    refine ⟨List.cons_ne_nil _ _, labelName?_dataText h _, fun text statement length hread => ?_⟩
    rw [hstatement] at hread
    obtain ⟨d, -, hread⟩ := bind_eq_ok.mp hread
    cases hread
    rw [List.drop_length]
    rfl
  have hresolve (code : List Char) :
      Error.liftAt r.line (r.symbols.resolve (String.ofList code)) = .ok (String.ofList code) := by
    rw [hsymbols, SymbolTable.resolve_nil]
    rfl
  unfold readLine
  rw [splitComment_dataText h, hsplit]
  dsimp only
  rw [hresolve, ok_bind, String.toList_ofList, hcode, readStatements_of_readsOne hone, hstatement]
  cases DataLine.read r.env.isa name bytes ('"' :: Text.trimEnd body) r.line <;> rfl

end Reader

/-! ## Texts -/

namespace DataLine

/-- A text that does not survive has lost characters. -/
theorem charCount_lt_of_not_survives {cs body comment : List Char} (h : ¬ Text.Survives cs)
    (hsplit : Text.splitCommentFrom (some '"') (Text.escape cs ++ ['"']) = (body, comment)) :
    charCount (Text.splitOperands ('"' :: Text.trimEnd body)) < cs.length := by
  have hcurrent : ['"'].reverse = ['"'] ++ Text.escape [] := rfl
  rw [Text.splitOperands_quote]
  by_cases hcomment : Text.Uncommented (some '"') cs
  · rw [Text.splitCommentFrom_escape Text.isOpen_double hcomment] at hsplit
    cases hsplit
    rw [Text.trimEnd_quoted]
    have hlost := charCount_lt Text.isOpen_double (.inr rfl) (.inr rfl) hcurrent fun hcomma =>
      h ⟨hcomment, hcomma⟩
    rwa [List.length_nil, Nat.zero_add] at hlost
  · obtain ⟨x, after, rest, rfl, hcut⟩ :=
      Text.exists_splitCommentFrom_escape Text.isOpen_double hcomment ['"']
    rw [hcut] at hsplit
    cases hsplit
    have hleft : charCount
        (Text.splitOperandsFrom (some '"') 0 ['"'] (Text.escape (Text.trimEnd x) ++ [])) ≤
        [].length + (Text.trimEnd x).length :=
      charCount_le Text.isOpen_double (.inr rfl) (.inl rfl) hcurrent
    have hshorter := (Text.trimEnd_sublist x).length_le
    rw [List.append_nil, List.length_nil, Nat.zero_add] at hleft
    rw [Text.trimEnd_escape, List.length_append, List.length_cons]
    omega

end DataLine

/-- **Which texts are read back.** Let a text without line breaks stand between double quotes, with
a backslash before each double quote and each backslash in it, as the operand of a data directive,
and let no symbols be defined. If the text survives the readers of comments and operands, the line
is one data statement whose items are the characters of the text, and the terminator if the
directive has one. If it does not, every data statement that is read from the line has fewer
characters, and so other items. All texts without double quotes survive, and all without semicolons
and commas. -/
theorem text_survives (r : Reader) (hsymbols : r.symbols = []) (name : String) (bytes : Nat)
    (hname : DataLine.valueBytes? name = some bytes) (cs : List Char) (hbreak : '\n' ∉ cs) :
    let line := Reader.dataText name (Text.quoted cs)
    (Text.Survives cs → r.readLine line = .ok [r.item "" (String.ofList line) (.data
      { name := s!".{name}", valueBits := bytes * 8, items := DataLine.textItems name cs,
        packed := r.env.isa.packing && bytes == 1 })]) ∧
    (¬ Text.Survives cs → ∀ items, r.readLine line = .ok items → ∀ i ∈ items, ∀ d,
      i.statement = .data d →
      d.items.countP DataItem.isChar < cs.length ∧ d.items ≠ DataLine.textItems name cs) ∧
    ('"' ∉ cs ∨ ';' ∉ cs ∧ ',' ∉ cs → Text.Survives cs) := by
  intro line
  have hnone : '\n' ∉ Text.escape cs ++ ['"'] := by
    intro hmem
    rcases List.mem_append.mp hmem with hmem | hmem
    · rcases Text.mem_of_mem_escape hmem with h | h
      · cases h
      · exact hbreak h
    · cases List.mem_singleton.mp hmem
  refine ⟨fun ⟨hcomment, hcomma⟩ => ?_, fun h items hread i hi d hd => ?_, fun h => ?_⟩
  · have hread :=
      Reader.readLine_data hsymbols hname
        (Text.splitCommentFrom_escape Text.isOpen_double hcomment) hnone
    have hargs : Text.splitOperands ('"' :: Text.trimEnd (Text.escape cs ++ ['"'])) =
        [Text.quoted cs] := by
      rw [Text.splitOperands_quote, Text.trimEnd_quoted,
        Text.splitOperandsFrom_escape Text.isOpen_double hcomma]
      exact congrArg (fun arg => [arg]) (Text.trim_quoted cs)
    rw [DataLine.read_of_splitOperands hargs, ok_bind, Text.trimEnd_quoted] at hread
    exact hread
  · have hline := Reader.readLine_data (r := r) hsymbols hname (Prod.eta _).symm hnone
    obtain ⟨found, hfound, heq⟩ := bind_eq_ok.mp (hline.symm.trans hread)
    cases heq
    cases List.mem_singleton.mp hi
    cases hd
    have hlost : d.items.countP DataItem.isChar < cs.length := by
      rw [DataLine.countP_of_read hfound]
      exact DataLine.charCount_lt_of_not_survives h (Prod.eta _).symm
    refine ⟨hlost, fun hitems => ?_⟩
    rw [hitems, DataLine.countP_textItems] at hlost
    exact Nat.lt_irrefl _ hlost
  · refine ⟨Text.uncommented_of_not_mem ?_, Text.unseparated_of_not_mem ?_⟩
    · rcases h with h | ⟨h, -⟩
      · exact .inr ⟨rfl, h⟩
      · exact .inl h
    · rcases h with h | ⟨-, h⟩
      · exact .inr ⟨rfl, h⟩
      · exact .inl h

/-- The items of data statements. -/
def Statement.dataItems : Statement → List DataItem
  | .data d => d.items
  | _ => []

/-- A reader without symbols. -/
def Reader.plain (isa : Isa) : Reader where
  env := { isa, zones := default, scopes := .empty, named := [] }
  symbols := []
  position := { zone := 0, scope := 0, active := [], compilable := true, muted := false }
  line := default

/-- A text with commas and semicolons between its quotes and brackets survives. -/
theorem text_survives_brackets :
    let r := Reader.plain
      (Isa.bare { size := 8, segment := 8, order := .big } (by decide) (by decide))
    let cs := ";, \\ \"[x, y]\"".toList
    let line := Reader.dataText "cstr" (Text.quoted cs)
    line = ".cstr \";, \\\\ \\\"[x, y]\\\"\"".toList ∧
      ∃ items, r.readLine line = .ok items ∧ (items.flatMap fun i => i.statement.dataItems) =
        cs.map (fun c => DataItem.char c.toNat) ++ [.terminator] := by
  intro r cs line
  refine ⟨by decide +kernel, _,
    (text_survives r rfl "cstr" 1 rfl cs (by decide)).1 (by decide +kernel), ?_⟩
  decide +kernel

/-- The text `";` is read as a backslash, since its quote ends the text and its semicolon starts a
comment. -/
theorem text_cut_at_semicolon :
    let r := Reader.plain
      (Isa.bare { size := 8, segment := 8, order := .big } (by decide) (by decide))
    let line := Reader.dataText "byte" (Text.quoted "\";".toList)
    line = ".byte \"\\\";\"".toList ∧
      ((r.readLine line).map fun items => items.flatMap fun i => i.statement.dataItems) =
        .ok [.char 92] := by
  decide +kernel

end Retarget
