import Retarget.Isa.Symbols
import Retarget.Proofs.Expr.Printing
import Retarget.Proofs.Result
import Retarget.Proofs.Statement.Size
import Retarget.Proofs.Symbol.Comparison
import Retarget.Proofs.Symbol.Mirror

/-!
# Language requirements

A program may require a language, and a version of it: `name >= 1.2`. The requirement is divided at
the first of the characters `=`, `<` and `>`, so that the exclamation mark of `!=` belongs to the
name before it. The five other comparisons are decided by the order of versions, and a requirement
with `!=` asks for a language that there is not.

* `Isa.identity_isPrefix`: the name and the version that requirements are checked against are those
  of the instruction set, whatever is defined after them;
* `SymbolTable.requireLanguage_requirement`, `SymbolTable.requireLanguage_requirement_other`: how a
  requirement is checked.
-/

namespace Retarget

namespace Version

/-- Blanks around a version do not count. -/
theorem parse_strip (s : String) : Version.parse (Text.strip s) = Version.parse s := by
  unfold Version.parse
  rw [Text.strip, String.toList_ofList, Text.trim_trim]

/-- No version starts with an equals sign. -/
theorem parse_equals (cs : List Char) : Version.parse (String.ofList ('=' :: cs)) = none := by
  have hcore : ((Text.trim ('=' :: cs)).dropWhile fun c => c == 'v' || c == 'V').takeWhile
      (fun c => c != '-' && c != '+') = '=' :: (Text.trimEnd cs).takeWhile fun c =>
        c != '-' && c != '+' := by
    rw [Text.trim_cons rfl, List.dropWhile_cons_of_neg (by decide),
      List.takeWhile_cons_of_pos (by decide)]
  have hparts (ds : List Char) : ∃ p ps, ('=' :: ds).splitOn '.' = ('=' :: p) :: ps := by
    obtain ⟨p, ps, h⟩ := List.exists_cons_of_ne_nil (List.splitOnP_ne_nil (· == '.') ds)
    refine ⟨p, ps, ?_⟩
    rw [List.splitOn, List.splitOnP_cons_eq_if_modifyHead, h]
    rfl
  obtain ⟨p, ps, h⟩ := hparts ((Text.trimEnd cs).takeWhile fun c => c != '-' && c != '+')
  unfold Version.parse
  dsimp only
  rw [String.toList_ofList, hcore, h]
  -- The first part is no number, however many follow.
  match ps with
  | [] => rfl
  | [y] => rfl
  | [y, z] => rfl
  | _ :: _ :: _ :: _ => rfl

end Version

/-! ## The declared language -/

namespace SymbolTable

variable {t t' : SymbolTable} {s : Symbol} {name : String} {value : Option String}
  {line : SourceLine}

/-- A definition leaves all earlier ones in place. -/
theorem define_isPrefix (h : t.define name value line = .ok t') : t <+: t' := by
  unfold define at h
  split at h
  · cases h
  · split at h
    · cases h
    · cases h
      exact List.prefix_append t _

theorem define_eq_ok (hname : isSymbolName name = true) (hnew : t.find? name = none) :
    t.define name value line = .ok (t ++ [⟨name, value, line⟩]) := by
  rw [define, hname, hnew]
  rfl

theorem textOf_of_isPrefix (hfind : t.find? name = some s) (h : t <+: t') :
    t'.textOf name = s.value.getD "" := by
  rw [textOf, find?, h.find?_eq_some hfind]
  rfl

end SymbolTable

namespace Isa

variable {isa : Isa} {defines : List (String × String)} {t : SymbolTable}

/-- The symbols that requirements are checked against. -/
def identity (isa : Isa) : SymbolTable :=
  let line := SourceLine.synthetic isa.name
  [{ name := languageName, value := some isa.name, line },
    { name := languageVersion, value := some isa.version, line }]

/-- The symbols of the instruction set come first, and stay. -/
theorem identity_isPrefix (h : isa.symbolTable defines = .ok t) : isa.identity <+: t := by
  have hstep (line : SourceLine) (t : SymbolTable) (d : String × Option String)
      (h : isa.identity <+: t) :
      Gives (isa.identity <+: ·) (Error.liftAt line (t.define d.1 d.2 line)) := fun t' ht' =>
    h.trans (SymbolTable.define_isPrefix (Error.liftAt_eq_ok.mp ht'))
  obtain ⟨t₁, h₁, h⟩ := bind_eq_ok.mp h
  obtain ⟨t₂, h₂, h⟩ := bind_eq_ok.mp h
  refine Gives.foldlM (hstep _) (Gives.foldlM (hstep _) ?_ _ t₂ h₂) _ t h
  rw [languageSymbols, List.foldlM_cons] at h₁
  obtain ⟨named, hnamed, h₁⟩ := bind_eq_ok.mp h₁
  rw [List.foldlM_cons] at h₁
  obtain ⟨both, hboth, h₁⟩ := bind_eq_ok.mp h₁
  have hname : isSymbolName languageName = true := by decide
  have hversion : isSymbolName languageVersion = true := by decide
  cases (SymbolTable.define_eq_ok hname rfl).symm.trans (Error.liftAt_eq_ok.mp hnamed)
  cases (SymbolTable.define_eq_ok hversion rfl).symm.trans (Error.liftAt_eq_ok.mp hboth)
  exact Gives.foldlM (hstep _) (List.prefix_refl isa.identity) _ t₁ h₁

theorem textOf_languageName (h : isa.identity <+: t) : t.textOf languageName = isa.name :=
  SymbolTable.textOf_of_isPrefix (s := ⟨languageName, some isa.name,
    SourceLine.synthetic isa.name⟩) rfl h

theorem textOf_languageVersion (h : isa.identity <+: t) : t.textOf languageVersion = isa.version :=
  SymbolTable.textOf_of_isPrefix (s := ⟨languageVersion, some isa.version,
    SourceLine.synthetic isa.name⟩) rfl h

end Isa

/-! ## Checking a requirement -/

namespace SymbolTable

variable {t : SymbolTable} {c : Char} {x : List Char} {op : Comparison}

/-- Characters that a comparison in a requirement starts with. -/
def startsComparison (c : Char) : Bool := c == '=' || c == '<' || c == '>'

/-- The name in a requirement, and the comparison with the version after it. -/
theorem requirement_parts (hx : ∀ d ∈ x, startsComparison d = false)
    (hc : startsComparison c = true) (rest : List Char) :
    Text.trim ((Text.trim (x ++ c :: rest)).takeWhile fun d => !startsComparison d) = Text.trim x ∧
      Text.trim ((Text.trim (x ++ c :: rest)).dropWhile fun d => !startsComparison d) =
        c :: Text.trimEnd rest := by
  have hblank : Text.isBlank c = false := by
    have hcases : (c = '=' ∨ c = '<') ∨ c = '>' := by simpa [startsComparison] using hc
    rcases hcases with (rfl | rfl) | rfl <;> rfl
  have hstart : ∀ d ∈ Text.trimStart x, (!startsComparison d) = true := fun d hd => by
    rw [hx d ((List.dropWhile_sublist _).subset hd)]
    rfl
  have hends : ∀ d ∈ (c :: Text.trimEnd rest).head?, (!startsComparison d) = false := by
    rintro d ⟨⟩
    rw [hc]
    rfl
  obtain ⟨htake, hdrop⟩ := Text.takeWhile_append_of_ends hstart hends
  rw [Text.trim_append_cons hblank, htake, hdrop, Text.trim_trimStart, Text.trim_cons hblank,
    Text.trimEnd_trimEnd]
  exact ⟨rfl, rfl⟩

/-- **Another language is refused,** whatever is required of its version. -/
theorem requireLanguage_other (hx : ∀ d ∈ x, startsComparison d = false)
    (hc : startsComparison c = true) (hother : String.ofList (Text.trim x) ≠ t.textOf languageName)
    (rest : List Char) :
    t.requireLanguage (String.ofList (x ++ c :: rest)) =
      .error (.otherLanguage (String.ofList (Text.trim x)) (t.textOf languageName)) := by
  have hlanguage := (requirement_parts hx hc rest).1
  simp only [startsComparison] at hlanguage
  unfold requireLanguage
  dsimp only
  rw [String.toList_ofList, hlanguage, if_pos (bne_iff_ne.mpr hother)]
  rfl

/-- Check the version of the language. -/
def requireVersion (t : SymbolTable) (op : Comparison) (wanted : String) :
    Except SymbolError (Option String) :=
  match Version.parse wanted, Version.parse (t.textOf languageVersion) with
  | none, _ => .error (.badVersion wanted)
  | _, none => .error (.badVersion (t.textOf languageVersion))
  | some w, some v =>
    if op.holds (v.compare w) then .ok none
    else .error (.otherVersion op.describe wanted (t.textOf languageVersion))

/-- A comparison of two characters. -/
theorem requireLanguage_pair (hx : ∀ d ∈ x, startsComparison d = false)
    (hc : startsComparison c = true) (hname : String.ofList (Text.trim x) = t.textOf languageName)
    (hop : Comparison.ofPair? c '=' = some op) (wanted : List Char) :
    t.requireLanguage (String.ofList (x ++ c :: '=' :: wanted)) =
      t.requireVersion op (Text.strip (String.ofList (Text.trimEnd wanted))) := by
  obtain ⟨hlanguage, hcomparison⟩ := requirement_parts hx hc ('=' :: wanted)
  have hend : Text.trimEnd ('=' :: wanted) = '=' :: Text.trimEnd wanted :=
    Text.trimEnd_append_cons rfl [] wanted
  simp only [startsComparison] at hlanguage hcomparison
  unfold requireLanguage requireVersion
  dsimp only
  rw [String.toList_ofList, hlanguage, hname, hcomparison, hend, if_neg (by simp)]
  dsimp only
  rw [hop]
  generalize Version.parse = parse
  rfl

/-- A comparison of one character. -/
theorem requireLanguage_char (hx : ∀ d ∈ x, startsComparison d = false)
    (hc : startsComparison c = true) (hname : String.ofList (Text.trim x) = t.textOf languageName)
    (hop : Comparison.ofChar? c = some op) {wanted : List Char}
    (hne : ∀ more, Text.trimEnd wanted ≠ '=' :: more) :
    t.requireLanguage (String.ofList (x ++ c :: wanted)) =
      t.requireVersion op (Text.strip (String.ofList (Text.trimEnd wanted))) := by
  obtain ⟨hlanguage, hcomparison⟩ := requirement_parts hx hc wanted
  simp only [startsComparison] at hlanguage hcomparison
  unfold requireLanguage requireVersion
  dsimp only
  rw [String.toList_ofList, hlanguage, hname, hcomparison, if_neg (by simp)]
  dsimp only
  rw [hop]
  generalize Version.parse = parse
  simp only
  rfl

theorem requireVersion_eq {v w : Version} {wanted : String}
    (hv : Version.parse (t.textOf languageVersion) = some v) (hw : Version.parse wanted = some w) :
    t.requireVersion op wanted =
      if op.holds (v.compare w) then .ok none
      else .error (.otherVersion op.describe wanted (t.textOf languageVersion)) := by
  rw [requireVersion, hw, hv]

/-- A requirement as it is written. -/
def requirement (name : String) (gap : Blanks) (op : Comparison) (gap' : Blanks) (wanted : String) :
    String :=
  String.ofList (name.toList ++ gap.1 ++ (op.written ++ (gap'.1 ++ wanted.toList)))

theorem startsComparison_of_isBlank (h : Text.isBlank c = true) : startsComparison c = false := by
  have hne {d : Char} (hd : Text.isBlank d = false) : (c == d) = false :=
    beq_false_of_ne (Text.ne_of_isBlank h hd)
  rw [startsComparison, hne (by decide), hne (by decide), hne (by decide)]
  rfl

theorem startsComparison_eq_false {name : String}
    (hname : ∀ d ∈ name.toList, startsComparison d = false) (gap : Blanks) :
    ∀ d ∈ name.toList ++ gap.1, startsComparison d = false := by
  intro d hd
  rcases List.mem_append.mp hd with hd | hd
  · exact hname d hd
  · exact startsComparison_of_isBlank (gap.2 d hd)

/-- The version of a requirement for the declared language is compared, unless it is for any other
version. -/
theorem requireLanguage_requirement {name wanted : String} {w : Version}
    (hname : t.textOf languageName = name) (hstrip : Text.strip name = name)
    (hchars : ∀ d ∈ name.toList, startsComparison d = false) (hw : Version.parse wanted = some w)
    (hop : op ≠ .ne) (gap gap' : Blanks) :
    t.requireLanguage (requirement name gap op gap' wanted) =
      t.requireVersion op (Text.strip wanted) := by
  have hx := startsComparison_eq_false hchars gap
  have hsame : String.ofList (Text.trim (name.toList ++ gap.1)) = t.textOf languageName := by
    rw [Text.trim_append_blanks gap.2, hname]
    exact hstrip
  have hwanted : Text.strip (String.ofList (Text.trimEnd (gap'.1 ++ wanted.toList))) =
      Text.strip wanted := by
    rw [Text.strip, String.toList_ofList, Text.trim_trimEnd,
      Text.trim_blanks_append gap'.2, Text.strip]
  have hne (more : List Char) : Text.trimEnd (gap'.1 ++ wanted.toList) ≠ '=' :: more := by
    intro h
    have hparse := Version.parse_equals more
    rw [← h, ← Version.parse_strip, hwanted, Version.parse_strip, hw] at hparse
    cases hparse
  rw [← hwanted]
  cases op with
  | eq => exact requireLanguage_pair hx rfl hsame rfl _
  | ne => exact absurd rfl hop
  | gt => exact requireLanguage_char hx rfl hsame rfl hne
  | ge => exact requireLanguage_pair hx rfl hsame rfl _
  | lt => exact requireLanguage_char hx rfl hsame rfl hne
  | le => exact requireLanguage_pair hx rfl hsame rfl _

/-- The name that is read in a requirement. An exclamation mark belongs to it. -/
def requiredName (name : String) (gap : Blanks) (op : Comparison) : String :=
  Text.strip (String.ofList (name.toList ++ gap.1 ++ if op = .ne then ['!'] else []))

theorem requiredName_of_ne (hop : op ≠ .ne) (name : String) (gap : Blanks) :
    requiredName name gap op = Text.strip name := by
  rw [requiredName, if_neg hop, List.append_nil, Text.strip, String.toList_ofList,
    Text.trim_append_blanks gap.2, Text.strip]

/-- No name without exclamation marks is read before `!=`. -/
theorem requiredName_ne {language : String} (h : '!' ∉ language.toList) (name : String)
    (gap : Blanks) : requiredName name gap .ne ≠ language := by
  rintro rfl
  rw [requiredName, if_pos rfl, Text.strip, String.toList_ofList, String.toList_ofList,
    Text.trim_concat rfl] at h
  exact h (List.mem_append_right _ List.mem_cons_self)

/-- **Any other name is refused,** whatever is required of the version. -/
theorem requireLanguage_requirement_other {name : String}
    (hchars : ∀ d ∈ name.toList, startsComparison d = false) {gap : Blanks}
    (hother : requiredName name gap op ≠ t.textOf languageName) (gap' : Blanks) (wanted : String) :
    t.requireLanguage (requirement name gap op gap' wanted) =
      .error (.otherLanguage (requiredName name gap op) (t.textOf languageName)) := by
  obtain ⟨c, rest, hc, hwritten⟩ : ∃ c rest, startsComparison c = true ∧
      op.written = (if op = .ne then ['!'] else []) ++ c :: rest := by
    cases op <;> exact ⟨_, _, rfl, rfl⟩
  have hx : ∀ d ∈ name.toList ++ gap.1 ++ (if op = .ne then ['!'] else []),
      startsComparison d = false := by
    intro d hd
    rcases List.mem_append.mp hd with hd | hd
    · exact startsComparison_eq_false hchars gap d hd
    · split at hd
      · rw [List.mem_singleton.mp hd]
        rfl
      · cases hd
  have hrequired :
      String.ofList (Text.trim (name.toList ++ gap.1 ++ if op = .ne then ['!'] else [])) =
      requiredName name gap op := by
    rw [requiredName, Text.strip, String.toList_ofList]
  have htext : requirement name gap op gap' wanted = String.ofList
      (name.toList ++ gap.1 ++ (if op = .ne then ['!'] else []) ++ c ::
        (rest ++ (gap'.1 ++ wanted.toList))) := by
    rw [requirement, hwritten]
    simp only [List.append_assoc, List.cons_append]
  rw [← hrequired] at hother ⊢
  rw [htext]
  exact requireLanguage_other hx hc hother _

end SymbolTable

/-- **Language requirements.** The version of the instruction set is compared with the required one
as the comparison says, number by number, and a requirement that it does not meet is refused with
both versions. With `!=` the requirement is refused whatever the versions are, because its
exclamation mark is taken for the end of the name. A requirement for another language is refused
with every comparison. -/
theorem requirements_compare_versions {isa : Isa} {defines : List (String × String)}
    {t₀ t : SymbolTable} (ht₀ : isa.symbolTable defines = .ok t₀) (ht : t₀ <+: t)
    (hstrip : Text.strip isa.name = isa.name)
    (hchars : ∀ c ∈ isa.name.toList, c ∉ ['=', '<', '>', '!']) {v w : Version} {wanted : String}
    (hv : Version.parse isa.version = some v) (hw : Version.parse wanted = some w)
    (gap gap' : Blanks) : (∀ op : Comparison, op ≠ .ne →
      (op.Relates v.triple w.triple →
        t.requireLanguage (SymbolTable.requirement isa.name gap op gap' wanted) = .ok none) ∧
      (¬ op.Relates v.triple w.triple →
        t.requireLanguage (SymbolTable.requirement isa.name gap op gap' wanted) =
          .error (.otherVersion op.describe (Text.strip wanted) isa.version))) ∧
    t.requireLanguage (SymbolTable.requirement isa.name gap .ne gap' wanted) =
      .error (.otherLanguage
        (Text.strip (String.ofList (isa.name.toList ++ gap.1 ++ ['!']))) isa.name) ∧
    ∀ (other : String) (op : Comparison), (∀ c ∈ other.toList, c ∉ ['=', '<', '>']) →
      Text.strip other ≠ isa.name →
      ∃ read, t.requireLanguage (SymbolTable.requirement other gap op gap' wanted) =
        .error (.otherLanguage read isa.name) := by
  have hidentity := (Isa.identity_isPrefix ht₀).trans ht
  have hname := Isa.textOf_languageName hidentity
  have hversion := Isa.textOf_languageVersion hidentity
  have hstarts {c : Char} (hc : c ∉ ['=', '<', '>']) : SymbolTable.startsComparison c = false := by
    simp only [List.mem_cons, List.not_mem_nil, or_false, not_or] at hc
    simp [SymbolTable.startsComparison, hc]
  have hown : ∀ c ∈ isa.name.toList, SymbolTable.startsComparison c = false := fun c hc =>
    hstarts fun hmem => hchars c hc (List.mem_append_left ['!'] hmem)
  have hmark : '!' ∉ isa.name.toList := fun hmem => hchars '!' hmem (by simp)
  have hmarked (name : String) : SymbolTable.requiredName name gap .ne ≠ t.textOf languageName := by
    rw [hname]
    exact SymbolTable.requiredName_ne hmark name gap
  refine ⟨fun op hop => ?_, ?_, fun other op hother hne => ?_⟩
  · have hrequire := SymbolTable.requireLanguage_requirement hname hstrip hown hw hop gap gap'
    rw [SymbolTable.requireVersion_eq (hversion.symm ▸ hv) ((Version.parse_strip wanted).trans hw),
      Version.compare_eq] at hrequire
    refine ⟨fun h => ?_, fun h => ?_⟩
    · rw [hrequire, if_pos ((op.holds_compare _ _).mpr h)]
    · rw [hrequire, if_neg (mt (op.holds_compare _ _).mp h), hversion]
  · have hrefused :=
      SymbolTable.requireLanguage_requirement_other hown (hmarked isa.name) gap' wanted
    rwa [hname] at hrefused
  · have hrequired : SymbolTable.requiredName other gap op ≠ t.textOf languageName := by
      by_cases hop : op = .ne
      · rw [hop]
        exact hmarked other
      · rwa [SymbolTable.requiredName_of_ne hop, hname]
    have hrefused :=
      SymbolTable.requireLanguage_requirement_other (fun c hc =>
        hstarts (hother c hc)) hrequired gap'
      wanted
    rw [hname] at hrefused
    exact ⟨_, hrefused⟩

/-- A later version that comes first as a text, and a language with a longer name. -/
theorem requirements_compare_versions_later :
    let isa : Isa :=
      { Isa.bare { size := 8, segment := 8, order := .big } (by decide) (by decide) with
        name := "core", version := "1.10.3" }
    let requirement (name : String) (op : Comparison) :=
      SymbolTable.requirement name (.spaces 1) op (.spaces 0) "v1.9-rc"
    requirement "core" .ge = "core >=v1.9-rc" ∧
    ∃ t, isa.symbolTable [("DEBUG", "")] = .ok t ∧
      t.requireLanguage (requirement "core" .ge) = .ok none ∧
      t.requireLanguage (requirement "core" .lt) =
        .error (.otherVersion "less than" "v1.9-rc" "1.10.3") ∧
      t.requireLanguage (requirement "core" .ne) = .error (.otherLanguage "core !" "core") ∧
      ∃ read, t.requireLanguage (requirement "core2" .ge) =
        .error (.otherLanguage read "core") := by
  intro isa requirement
  obtain ⟨t, ht⟩ : ∃ t, (isa.symbolTable [("DEBUG", "")]).toOption = some t :=
    Option.isSome_iff_exists.mp (by decide +kernel)
  replace ht := toOption_eq_some.mp ht
  have hv : Version.parse isa.version = some ⟨1, 10, 3⟩ := by decide +kernel
  have hw : Version.parse "v1.9-rc" = some ⟨1, 9, 0⟩ := by decide +kernel
  have hshown : Text.strip "v1.9-rc" = "v1.9-rc" := by decide +kernel
  have hread : Text.strip (String.ofList ("core".toList ++ (Blanks.spaces 1).1 ++ ['!'])) =
      "core !" := by
    decide +kernel
  have hchars : ∀ c ∈ isa.name.toList, c ∉ ['=', '<', '>', '!'] := by simp [isa]
  have hlonger : ∀ c ∈ "core2".toList, c ∉ ['=', '<', '>'] := by simp
  obtain ⟨hversions, hmark, hother⟩ :=
    requirements_compare_versions ht (List.prefix_refl t) (by decide +kernel)
    hchars hv hw (.spaces 1) (.spaces 0)
  rw [hread] at hmark
  refine ⟨by decide +kernel, t, ht, (hversions .ge (by decide)).1 (by decide), ?_, hmark,
    hother "core2" .ge hlonger (by decide +kernel)⟩
  rw [(hversions .lt (by decide)).2 (by decide), hshown]
  rfl

/-- Another version is required, but the requirement is not met. -/
theorem different_version_refused :
    let isa : Isa :=
      { Isa.bare { size := 8, segment := 8, order := .big } (by decide) (by decide) with
        name := "test_isa", version := "1.2.3" }
    (isa.symbolTable []).toOption.map (·.requireLanguage "test_isa != 1.0.0") =
      some (.error (.otherLanguage "test_isa !" "test_isa")) := by
  decide +kernel

end Retarget
