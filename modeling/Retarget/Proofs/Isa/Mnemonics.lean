import Retarget.Isa.Instruction
import Retarget.Proofs.Isa.Widths
import Retarget.Proofs.Text.LetterCase

/-!
# The table of mnemonics

Instructions, their other names and macros are added to one table, name by name and in lower case. A
name that is there already, or that is a keyword, ends this with an error, so a table that was built
has every name once.

* `InstructionSet.Adds`: what a step adds, `InstructionSet.register_eq_ok`: for one name, and
  `InstructionSet.foldlM_eq_ok`: for any number of such steps;
* `InstructionSet.ofSpec_eq_ok`: the entries of a whole table;
* `InstructionSet.find?_of_mem`, `InstructionSet.contains_iff`: what a table with these entries
  finds.
-/

namespace Retarget

/-! ## Keywords -/

theorem isAscii_of_mem_keywords {k : String} (h : k ∈ keywords) : Text.IsAscii k := by
  have hall : keywords.all (fun k => k.toList.all fun c => c.toNat < 128) = true := by
    decide +kernel
  intro c hc
  simpa using List.all_eq_true.mp (List.all_eq_true.mp hall k h) c hc

/-- The keywords in any letter case. -/
theorem isKeyword_lower_iff {name : String} (h : Text.IsAscii name) :
    isKeyword (Text.lower name) = true ↔ ∃ k ∈ keywords, Text.CaseVariant k name := by
  rw [isKeyword, List.any_eq_true]
  refine exists_congr fun k => and_congr_right fun hk => ?_
  have hascii := isAscii_of_mem_keywords hk
  rw [Text.equalIgnoringCase_iff_lower hascii (Text.isAscii_lower h), Text.lower_lower h, eq_comm,
    Text.lower_eq_iff hascii]

namespace InstructionSet

variable {s s' s'' : InstructionSet} {items more : List (String × Operation)} {name what : String}
  {operation : Operation}

/-! ## Steps -/

/-- The names of the entries. -/
def names (s : InstructionSet) : List String := s.entries.map Prod.fst

theorem isSome_lookup_iff : (s.entries.lookup name).isSome = true ↔ name ∈ s.names :=
  NameTable.isSome_lookup

/-- What a step adds: entries with new names, each of them once, and none of them a keyword. -/
structure Adds (s : InstructionSet) (items : List (String × Operation)) (s' : InstructionSet) :
    Prop where
  entries_eq : s'.entries = s.entries ++ items
  fresh : ∀ name ∈ items.map Prod.fst, name ∉ s.names
  nodup : (items.map Prod.fst).Nodup
  noKeyword : ∀ name ∈ items.map Prod.fst, isKeyword name = false

theorem adds_nil : Adds s [] s' ↔ s = s' := by
  constructor
  · intro h
    have hentries := h.entries_eq
    cases s
    cases s'
    simpa [eq_comm] using hentries
  · rintro rfl
    exact ⟨by simp, by simp, by simp, by simp⟩

/-- Two steps add what they add together. -/
theorem adds_append : Adds s (items ++ more) s'' ↔ ∃ s', Adds s items s' ∧ Adds s' more s'' := by
  constructor
  · rintro ⟨hentries, hfresh, hnodup, hkeyword⟩
    rw [List.map_append] at hfresh hnodup hkeyword
    obtain ⟨hnodup, hnodup', hapart⟩ := List.nodup_append.mp hnodup
    rw [List.forall_mem_append] at hfresh hkeyword
    refine ⟨{ entries := s.entries ++ items }, ⟨rfl, hfresh.1, hnodup, hkeyword.1⟩, ?_, ?_,
      hnodup', hkeyword.2⟩
    · rw [hentries, List.append_assoc]
    · intro name hname hmem
      rw [names, List.map_append] at hmem
      rcases List.mem_append.mp hmem with hmem | hmem
      · exact hfresh.2 name hname hmem
      · exact hapart name hmem name hname rfl
  · rintro ⟨s', h, h'⟩
    have hnames : s'.names = s.names ++ items.map Prod.fst := by
      rw [names, h.entries_eq, List.map_append, names]
    have hfresh (name) (hname : name ∈ more.map Prod.fst) : name ∉ s.names ∧
        name ∉ items.map Prod.fst := by
      have hfresh := h'.fresh name hname
      rwa [hnames, List.mem_append, not_or] at hfresh
    refine ⟨by rw [h'.entries_eq, h.entries_eq, List.append_assoc], ?_, ?_, ?_⟩
    · rw [List.map_append, List.forall_mem_append]
      exact ⟨h.fresh, fun name hname => (hfresh name hname).1⟩
    · rw [List.map_append, List.nodup_append]
      refine ⟨h.nodup, h'.nodup, fun name hname other hother heq => ?_⟩
      exact (hfresh other hother).2 (heq ▸ hname)
    · rw [List.map_append, List.forall_mem_append]
      exact ⟨h.noKeyword, h'.noKeyword⟩

theorem register_eq_ok :
    s.register what name operation = .ok s' ↔ Adds s [(name, operation)] s' := by
  unfold register
  split
  · rename_i hkeyword
    refine iff_of_false (by simp) fun h => ?_
    rw [h.noKeyword name (by simp)] at hkeyword
    cases hkeyword
  · rename_i hkeyword
    split
    · rename_i hlookup
      exact iff_of_false (by simp) fun h => h.fresh name (by simp) (isSome_lookup_iff.mp hlookup)
    · rename_i hlookup
      rw [isSome_lookup_iff] at hlookup
      rw [Bool.not_eq_true] at hkeyword
      constructor
      · rintro ⟨⟩
        exact ⟨rfl, by simpa using hlookup, by simp, by simpa using hkeyword⟩
      · intro h
        have hentries := h.entries_eq
        cases s'
        cases hentries
        rfl

/-- The entries of some names. -/
def entriesFor (names : List String) (operation : Operation) : List (String × Operation) :=
  names.map fun name => (Text.lower name, operation)

/-- Names that are added one after the other. -/
theorem registerAll_eq_ok {all : List String} :
    all.foldlM (fun s name => s.register what (Text.lower name) operation) s = .ok s' ↔
      Adds s (entriesFor all operation) s' := by
  induction all generalizing s with
  | nil => rw [List.foldlM_nil, pure_eq_ok, entriesFor, List.map_nil, adds_nil]
  | cons name all ih =>
    have hentries : entriesFor (name :: all) operation =
        [(Text.lower name, operation)] ++ entriesFor all operation :=
      rfl
    rw [List.foldlM_cons, bind_eq_ok, hentries, adds_append]
    exact exists_congr fun middle => and_congr register_eq_ok ih

/-- Steps that each add something add all of it together. -/
theorem foldlM_eq_ok {α : Type} {f : InstructionSet → α → Except IsaError InstructionSet}
    {g : α → Except IsaError (List (String × Operation))}
    (hf : ∀ s x s', f s x = .ok s' ↔ ∃ items, g x = .ok items ∧ Adds s items s') {xs : List α} :
    xs.foldlM f s = .ok s' ↔ ∃ all, xs.mapM g = .ok all ∧ Adds s all.flatten s' := by
  simp only [mapM_eq_ok]
  induction xs generalizing s with
  | nil => simp [adds_nil]
  | cons x xs ih =>
    rw [List.foldlM_cons, bind_eq_ok]
    constructor
    · rintro ⟨middle, hfirst, hrest⟩
      obtain ⟨items, hitems, hadds⟩ := (hf s x middle).mp hfirst
      obtain ⟨all, hall, hadds'⟩ := ih.mp hrest
      exact ⟨items :: all, .cons hitems hall, adds_append.mpr ⟨middle, hadds, hadds'⟩⟩
    · rintro ⟨_, hall, hadds⟩
      cases hall with
      | cons hitems hall =>
        obtain ⟨middle, hfirst, hrest⟩ := adds_append.mp hadds
        exact ⟨middle, (hf s x middle).mpr ⟨_, hitems, hfirst⟩, ih.mpr ⟨_, hall, hrest⟩⟩

/-! ## Instructions and macros -/

variable {sets : NameTable OperandSet} {defaults : EncodingDefaults}
  {instructions : List (String × InstructionSpec)}
  {macros : List (String × MacroSpec)}

/-- The entries of an instruction. -/
def instructionEntries (sets : NameTable OperandSet) (defaults : EncodingDefaults)
    (entry : String × InstructionSpec) : Except IsaError (List (String × Operation)) :=
  (Instruction.ofSpec sets defaults (Text.lower entry.1) entry.2).map fun i =>
    entriesFor (entry.1 :: entry.2.aliases) (.instruction i)

/-- The entry of a macro. -/
def macroEntries (sets : NameTable OperandSet) (defaults : EncodingDefaults)
    (entry : String × MacroSpec) : Except IsaError (List (String × Operation)) :=
  (Macro.ofSpec sets defaults (Text.lower entry.1) entry.2).map fun m =>
    entriesFor [entry.1] (.expansion m)

theorem addInstruction_eq_ok (s : InstructionSet) (entry : String × InstructionSpec)
    (s' : InstructionSet) :
    addInstruction sets defaults s entry = .ok s' ↔
      ∃ items, instructionEntries sets defaults entry = .ok items ∧ Adds s items s' := by
  have hnames (i : Instruction) : entriesFor (entry.1 :: entry.2.aliases) (.instruction i) =
      [(Text.lower entry.1, .instruction i)] ++ entriesFor entry.2.aliases (.instruction i) := rfl
  unfold addInstruction
  constructor
  · intro h
    obtain ⟨i, hi, h⟩ := bind_eq_ok.mp h
    obtain ⟨middle, hfirst, hrest⟩ := bind_eq_ok.mp h
    refine ⟨_, map_eq_ok.mpr ⟨i, hi, rfl⟩, ?_⟩
    rw [hnames]
    exact adds_append.mpr ⟨middle, register_eq_ok.mp hfirst, registerAll_eq_ok.mp hrest⟩
  · rintro ⟨items, hitems, hadds⟩
    obtain ⟨i, hi, rfl⟩ := map_eq_ok.mp hitems
    rw [hnames] at hadds
    obtain ⟨middle, hfirst, hrest⟩ := adds_append.mp hadds
    exact bind_eq_ok.mpr ⟨i, hi, bind_eq_ok.mpr
      ⟨middle, register_eq_ok.mpr hfirst, registerAll_eq_ok.mpr hrest⟩⟩

/-- The name of a macro is looked up before the macro is checked, which makes a difference for the
error only. -/
theorem addMacro_eq_ok (s : InstructionSet) (entry : String × MacroSpec) (s' : InstructionSet) :
    addMacro sets defaults s entry = .ok s' ↔
      ∃ items, macroEntries sets defaults entry = .ok items ∧ Adds s items s' := by
  have hnames (m : Macro) : entriesFor [entry.1] (.expansion m) =
      [(Text.lower entry.1, .expansion m)] := rfl
  unfold addMacro
  dsimp only
  split
  · rename_i hlookup
    refine iff_of_false (by intro h; cases h) ?_
    rintro ⟨items, hitems, hadds⟩
    obtain ⟨m, -, rfl⟩ := map_eq_ok.mp hitems
    exact hadds.fresh _ (by rw [hnames]; simp) (isSome_lookup_iff.mp hlookup)
  · constructor
    · intro h
      obtain ⟨m, hm, h⟩ := bind_eq_ok.mp h
      exact ⟨_, map_eq_ok.mpr ⟨m, hm, rfl⟩, register_eq_ok.mp h⟩
    · rintro ⟨items, hitems, hadds⟩
      obtain ⟨m, hm, rfl⟩ := map_eq_ok.mp hitems
      exact bind_eq_ok.mpr ⟨m, hm, register_eq_ok.mpr hadds⟩

/-- **The entries of a table**: those of the instructions in their order, and then those of the
macros. -/
theorem ofSpec_eq_ok : ofSpec sets defaults instructions macros = .ok s ↔
    ∃ all more, instructions.mapM (instructionEntries sets defaults) = .ok all ∧
      macros.mapM (macroEntries sets defaults) = .ok more ∧
      Adds { entries := [] } (all.flatten ++ more.flatten) s := by
  constructor
  · intro h
    obtain ⟨middle, hfirst, hrest⟩ := bind_eq_ok.mp h
    obtain ⟨all, hall, hadds⟩ := (foldlM_eq_ok addInstruction_eq_ok).mp hfirst
    obtain ⟨more, hmore, hadds'⟩ := (foldlM_eq_ok addMacro_eq_ok).mp hrest
    exact ⟨all, more, hall, hmore, adds_append.mpr ⟨middle, hadds, hadds'⟩⟩
  · rintro ⟨all, more, hall, hmore, hadds⟩
    obtain ⟨middle, hfirst, hrest⟩ := adds_append.mp hadds
    exact bind_eq_ok.mpr ⟨middle, (foldlM_eq_ok addInstruction_eq_ok).mpr ⟨all, hall, hfirst⟩,
      (foldlM_eq_ok addMacro_eq_ok).mpr ⟨more, hmore, hrest⟩⟩

/-! ## Names -/

/-- The names of a configuration: those of instructions, each followed by its other names, and those
of macros. -/
def configuredNames (instructions : List (String × InstructionSpec))
    (macros : List (String × MacroSpec)) : List String :=
  (instructions.flatMap fun entry => entry.1 :: entry.2.aliases) ++ macros.map Prod.fst

theorem map_fst_flatten {α : Type} {g : α → Except IsaError (List (String × Operation))}
    {f : α → List String}
    (hg : ∀ x items, g x = .ok items → items.map Prod.fst = (f x).map Text.lower) {xs : List α}
    {all : List (List (String × Operation))} (h : xs.mapM g = .ok all) :
    all.flatten.map Prod.fst = (xs.flatMap f).map Text.lower := by
  induction mapM_eq_ok.mp h with
  | nil => rfl
  | @cons x items xs all hx hrest ih =>
    rw [List.flatten_cons, List.map_append, List.flatMap_cons, List.map_append, hg x items hx,
      ih (mapM_eq_ok.mpr hrest)]

/-- A table has the names of its configuration, in lower case and in their order. -/
theorem map_fst_entries {all more : List (List (String × Operation))}
    (hall : instructions.mapM (instructionEntries sets defaults) = .ok all)
    (hmore : macros.mapM (macroEntries sets defaults) = .ok more) :
    (all.flatten ++ more.flatten).map Prod.fst =
      (configuredNames instructions macros).map Text.lower := by
  have hinstruction (entry : String × InstructionSpec) (items : List (String × Operation))
      (h : instructionEntries sets defaults entry = .ok items) :
      items.map Prod.fst = (entry.1 :: entry.2.aliases).map Text.lower := by
    obtain ⟨i, -, rfl⟩ := map_eq_ok.mp h
    rw [entriesFor, List.map_map]
    rfl
  have hmacro (entry : String × MacroSpec) (items : List (String × Operation))
      (h : macroEntries sets defaults entry = .ok items) : items.map Prod.fst =
        [entry.1].map Text.lower := by
    obtain ⟨m, -, rfl⟩ := map_eq_ok.mp h
    rfl
  rw [List.map_append, map_fst_flatten hinstruction hall, map_fst_flatten hmacro hmore,
    configuredNames, List.map_append, ← List.map_eq_flatMap]

theorem lookup_of_mem (hnodup : (items.map Prod.fst).Nodup) (h : (name, operation) ∈ items) :
    items.lookup name = some operation := by
  obtain ⟨before, after, rfl⟩ := List.append_of_mem h
  refine List.lookup_eq_some_iff.mpr ⟨before, after, rfl, fun entry hentry => ?_⟩
  rw [List.map_append, List.nodup_append] at hnodup
  exact bne_iff_ne.mpr fun heq => hnodup.2.2 _ (List.mem_map_of_mem hentry) name (by simp) heq.symm

/-- **When there is a table**: every instruction and every macro passes its own checks, and no two
names are equal and none is a keyword, in lower case. -/
theorem exists_ofSpec_iff : (∃ s, ofSpec sets defaults instructions macros = .ok s) ↔
    (∀ entry ∈ instructions, ∃ i,
      Instruction.ofSpec sets defaults (Text.lower entry.1) entry.2 = .ok i) ∧
      (∀ entry ∈ macros, ∃ m, Macro.ofSpec sets defaults (Text.lower entry.1) entry.2 = .ok m) ∧
      ((configuredNames instructions macros).map Text.lower).Nodup ∧
      ∀ name ∈ configuredNames instructions macros, isKeyword (Text.lower name) = false := by
  simp only [ofSpec_eq_ok]
  constructor
  · rintro ⟨s, all, more, hall, hmore, hadds⟩
    have hnodup := hadds.nodup
    have hkeyword := hadds.noKeyword
    rw [map_fst_entries hall hmore] at hnodup hkeyword
    refine ⟨fun entry hentry => ?_, fun entry hentry => ?_, hnodup,
      fun name hname => hkeyword _ (List.mem_map_of_mem hname)⟩
    · obtain ⟨items, -, hitems⟩ := exists_of_forall₂_left (mapM_eq_ok.mp hall) hentry
      obtain ⟨i, hi, -⟩ := map_eq_ok.mp hitems
      exact ⟨i, hi⟩
    · obtain ⟨items, -, hitems⟩ := exists_of_forall₂_left (mapM_eq_ok.mp hmore) hentry
      obtain ⟨m, hm, -⟩ := map_eq_ok.mp hitems
      exact ⟨m, hm⟩
  · rintro ⟨hinstructions, hmacros, hnodup, hkeyword⟩
    obtain ⟨all, hall⟩ : ∃ all, instructions.mapM (instructionEntries sets defaults) = .ok all := by
      refine exists_mapM_eq_ok fun entry hentry => ?_
      obtain ⟨i, hi⟩ := hinstructions entry hentry
      exact ⟨_, map_eq_ok.mpr ⟨i, hi, rfl⟩⟩
    obtain ⟨more, hmore⟩ : ∃ more, macros.mapM (macroEntries sets defaults) = .ok more := by
      refine exists_mapM_eq_ok fun entry hentry => ?_
      obtain ⟨m, hm⟩ := hmacros entry hentry
      exact ⟨_, map_eq_ok.mpr ⟨m, hm, rfl⟩⟩
    have hnames := map_fst_entries hall hmore
    refine ⟨{ entries := all.flatten ++ more.flatten }, all, more, hall, hmore, rfl,
      by simp [names], ?_, ?_⟩
    · rwa [hnames]
    · rw [hnames]
      exact List.forall_mem_map.mpr hkeyword

/-- A name finds its operation in any letter case. -/
theorem find?_of_mem (hnodup : s.names.Nodup) (hname : Text.IsAscii name)
    (h : (Text.lower name, operation) ∈ s.entries) {x : String} (hx : Text.CaseVariant name x) :
    s.find? x = some operation := by
  rw [find?, (Text.lower_eq_iff hname).mpr hx]
  exact lookup_of_mem hnodup h

theorem contains_iff {x : String} : s.contains x = true ↔ Text.lower x ∈ s.names :=
  isSome_lookup_iff

/-- Names are distinct in lower case if none of them is a variant of another one. -/
theorem nodup_lower_iff {all : List String} (h : ∀ name ∈ all, Text.IsAscii name) :
    (all.map Text.lower).Nodup ↔ all.Pairwise fun a b => ¬ Text.CaseVariant a b := by
  rw [List.Nodup, List.pairwise_map]
  refine List.Pairwise.iff_of_mem fun ha hb => not_congr ?_
  rw [eq_comm, Text.lower_eq_iff (h _ ha)]

end InstructionSet

open InstructionSet in
/-- **The table of mnemonics is complete and has no collisions.** Let the names of instructions,
their other names and the names of macros be ASCII texts. If the table is built, then every
letter-case variant of an instruction's name, or of one of its other names, finds that instruction,
every variant of a macro's name finds that macro, there are no other mnemonics, and no name is a
keyword in any letter case. It is not built exactly if an instruction or a macro fails its own
checks, if two names are variants of each other, or if one of them is a variant of a keyword. -/
theorem mnemonics_complete_and_distinct (sets : NameTable OperandSet) (defaults : EncodingDefaults)
    (instructions : List (String × InstructionSpec)) (macros : List (String × MacroSpec))
    (hascii : ∀ name ∈ configuredNames instructions macros, Text.IsAscii name) :
    (∀ s, InstructionSet.ofSpec sets defaults instructions macros = .ok s →
      (∀ entry ∈ instructions, ∃ i,
        Instruction.ofSpec sets defaults (Text.lower entry.1) entry.2 = .ok i ∧
        ∀ name ∈ entry.1 :: entry.2.aliases, ∀ x, Text.CaseVariant name x →
          s.find? x = some (.instruction i)) ∧
      (∀ entry ∈ macros, ∃ m, Macro.ofSpec sets defaults (Text.lower entry.1) entry.2 = .ok m ∧
        ∀ x, Text.CaseVariant entry.1 x → s.find? x = some (.expansion m)) ∧
      (∀ x, s.contains x = true ↔ ∃ name ∈ configuredNames instructions macros,
        Text.CaseVariant name x) ∧
      ∀ name ∈ configuredNames instructions macros, ∀ k ∈ keywords, ¬ Text.CaseVariant k name) ∧
    ((∃ e, InstructionSet.ofSpec sets defaults instructions macros = .error e) ↔
      (∃ entry ∈ instructions, ∃ e,
        Instruction.ofSpec sets defaults (Text.lower entry.1) entry.2 = .error e) ∨
      (∃ entry ∈ macros, ∃ e, Macro.ofSpec sets defaults (Text.lower entry.1) entry.2 = .error e) ∨
      ¬ (configuredNames instructions macros).Pairwise (fun a b => ¬ Text.CaseVariant a b) ∨
      ∃ name ∈ configuredNames instructions macros, ∃ k ∈ keywords, Text.CaseVariant k name) := by
  have hkeyword (name : String) (hname : name ∈ configuredNames instructions macros) :
      isKeyword (Text.lower name) = false ↔ ¬ ∃ k ∈ keywords, Text.CaseVariant k name := by
    rw [← isKeyword_lower_iff (hascii name hname), Bool.not_eq_true]
  constructor
  · intro s h
    obtain ⟨-, -, -, hnone⟩ := exists_ofSpec_iff.mp ⟨s, h⟩
    obtain ⟨all, more, hall, hmore, hadds⟩ := ofSpec_eq_ok.mp h
    have hentries : s.entries = all.flatten ++ more.flatten := hadds.entries_eq
    have hnames : s.names = (configuredNames instructions macros).map Text.lower := by
      rw [InstructionSet.names, hentries, map_fst_entries hall hmore]
    have hnodup : s.names.Nodup := by
      rw [InstructionSet.names, hentries]
      exact hadds.nodup
    refine ⟨fun entry hentry => ?_, fun entry hentry => ?_, fun x => ?_,
      fun name hname k hk hvariant => ?_⟩
    · obtain ⟨items, hmem, hitems⟩ := exists_of_forall₂_left (mapM_eq_ok.mp hall) hentry
      obtain ⟨i, hi, rfl⟩ := map_eq_ok.mp hitems
      refine ⟨i, hi, fun name hname x hx => ?_⟩
      have hconfigured : name ∈ configuredNames instructions macros :=
        List.mem_append_left _ (List.mem_flatMap_of_mem hentry hname)
      refine find?_of_mem hnodup (hascii name hconfigured) ?_ hx
      rw [hentries]
      exact List.mem_append_left _ (List.mem_flatten_of_mem hmem (List.mem_map_of_mem hname))
    · obtain ⟨items, hmem, hitems⟩ := exists_of_forall₂_left (mapM_eq_ok.mp hmore) hentry
      obtain ⟨m, hm, rfl⟩ := map_eq_ok.mp hitems
      refine ⟨m, hm, fun x hx => ?_⟩
      have hconfigured : entry.1 ∈ configuredNames instructions macros :=
        List.mem_append_right _ (List.mem_map_of_mem hentry)
      refine find?_of_mem hnodup (hascii _ hconfigured) ?_ hx
      rw [hentries]
      exact List.mem_append_right _ (List.mem_flatten_of_mem hmem
        (List.mem_map_of_mem (List.mem_singleton_self _)))
    · rw [contains_iff, hnames, List.mem_map]
      refine exists_congr fun name => and_congr_right fun hname => ?_
      rw [eq_comm, Text.lower_eq_iff (hascii name hname)]
    · exact (hkeyword name hname).mp (hnone name hname) ⟨k, hk, hvariant⟩
  · rw [exists_error_iff, exists_ofSpec_iff, nodup_lower_iff hascii, forall₂_congr hkeyword]
    simp only [exists_error_iff, not_and_or, not_forall, exists_prop, not_not]

/-- The sign for kelvin is a capital K, so that it stands for the letter in the name of an
instruction. A macro cannot take the other name of that instruction. -/
theorem mnemonics_complete_and_distinct_skip :
    let opcode : OpcodeSpec :=
      { value := some 0, size := some 8, suffix := none, wordOrder := none, segmentOrder := none }
    let skip : InstructionSpec :=
      { first := { opcode := some opcode, operands := none }, aliases := ["NOOP"], others := [] }
    let twice : MacroSpec := [{ operands := none, templates := ["skip", "skip"] }]
    let defaults : EncodingDefaults :=
      { wordOrder := .big, segmentOrder := .big, registers := NameSet.ofList [] }
    let table (name : String) := InstructionSet.ofSpec [] defaults [("Skip", skip)] [(name, twice)]
    (∃ s i m, table "Twice" = .ok s ∧ s.find? "s\u212AIP" = some (.instruction i) ∧
      s.find? "nooP" = some (.instruction i) ∧ s.find? "tWICE" = some (.expansion m) ∧
        i.mnemonic = "skip" ∧
      s.contains "skipp" = false) ∧ ∃ e, table "noop" = .error e := by
  intro opcode skip twice defaults table
  have hascii {name : String} (h : name.toList.all (fun c => c.toNat < 128) = true) :
      Text.IsAscii name := by
    intro c hc
    simpa using List.all_eq_true.mp h c hc
  have hskip : Text.IsAscii "Skip" := hascii (by decide)
  have hnoop : Text.IsAscii "NOOP" := hascii (by decide)
  have htwice : Text.IsAscii "Twice" := hascii (by decide)
  have hbuilt : (table "Twice").toOption.isSome = true := by decide +kernel
  obtain ⟨s, hs⟩ := Option.isSome_iff_exists.mp hbuilt
  constructor
  · have hnames : ∀ name ∈ InstructionSet.configuredNames [("Skip", skip)] [("Twice", twice)],
        Text.IsAscii name := by
      simpa [InstructionSet.configuredNames, skip] using ⟨hskip, hnoop, htwice⟩
    obtain ⟨hinstructions, hmacros, hcontains, -⟩ :=
      (mnemonics_complete_and_distinct [] defaults [("Skip", skip)] [("Twice", twice)] hnames).1 s
        (toOption_eq_some.mp hs)
    obtain ⟨i, hi, hfind⟩ := hinstructions ("Skip", skip) (by simp)
    obtain ⟨m, hm, hfind'⟩ := hmacros ("Twice", twice) (by simp)
    refine ⟨s, i, m, toOption_eq_some.mp hs, ?_, ?_, ?_, ?_, ?_⟩
    · exact hfind "Skip" (by simp) _ ((Text.lower_eq_iff hskip).mp (by decide +kernel))
    · exact hfind "NOOP" (by simp [skip]) _ ((Text.lower_eq_iff hnoop).mp (by decide +kernel))
    · exact hfind' _ ((Text.lower_eq_iff htwice).mp (by decide +kernel))
    · obtain ⟨variants, -, hi⟩ := bind_eq_ok.mp hi
      cases pure_eq_ok.mp hi
      show Text.lower "Skip" = "skip"
      decide +kernel
    · rw [← Bool.not_eq_true, hcontains]
      rintro ⟨name, hname, hvariant⟩
      have hlower := (Text.lower_eq_iff (hnames name hname)).mpr hvariant
      simp only [InstructionSet.configuredNames, skip, List.flatMap_cons, List.flatMap_nil,
        List.map_cons, List.map_nil, List.append_nil, List.cons_append, List.nil_append,
        List.mem_cons, List.not_mem_nil, or_false] at hname
      rcases hname with rfl | rfl | rfl <;> revert hlower <;> decide +kernel
  · have hnames : ∀ name ∈ InstructionSet.configuredNames [("Skip", skip)] [("noop", twice)],
        Text.IsAscii name := by
      have hmacro : Text.IsAscii "noop" := hascii (by decide)
      simpa [InstructionSet.configuredNames, skip] using ⟨hskip, hnoop, hmacro⟩
    refine (mnemonics_complete_and_distinct [] defaults [("Skip", skip)]
      [("noop", twice)] hnames).2.mpr (.inr (.inr (.inl fun hdistinct => ?_)))
    have hvariant : Text.CaseVariant "NOOP" "noop" :=
      (Text.lower_eq_iff hnoop).mp (by decide +kernel)
    simp [InstructionSet.configuredNames, skip, hvariant] at hdistinct

end Retarget
