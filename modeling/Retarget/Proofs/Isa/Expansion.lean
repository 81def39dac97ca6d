import Retarget.Proofs.Field.Addresses
import Retarget.Proofs.Field.Steps
import Retarget.Proofs.Statement.Size

/-!
# Macros and the lines that they stand for

A macro is encoded as the lines that it stands for, each of them an instruction. It is placed as one
instruction.

* `Macro.expand`: the lines; `Isa.encodeAt_macro_eq_ok`: the encoding of a macro is made of theirs;
* `Isa.encodeAt_succ`: what can be encoded in a macro can be encoded on its own;
* `Item.wordsAt_eq_ok`: the fields of a placed instruction know the address and the size of the
  whole item;
* `relative_in_macro`: how far the relative addresses in a macro are from those of its lines on
  their own.
-/

namespace Retarget

/-! ## Lines -/

/-- The lines that a macro with operands stands for. -/
def Macro.expand (m : Macro) (c : MatchContext) (texts : List (List Char)) :
    Except Error (List (SourceLine × List Char)) := do
  match ← Macro.matchFirst c texts m.variants with
  | none => Error.failAt c.line (InstructionError.noVariant m.mnemonic)
  | some (v, operands) =>
    v.templates.zipIdx.mapM fun (template, step) => do
      let text ← Error.liftAt c.line (Macro.fill m.mnemonic step operands.operands template)
      return (c.line.inMacro m.mnemonic step, text)

namespace Isa

variable {isa : Isa} {zones : ZoneMap}

/-- The operation that a line names. -/
def operation? (isa : Isa) (cs : List Char) : Option Operation :=
  isa.instructions.find? (splitInstruction cs).1

/-- The lines that a line with a macro stands for. -/
def expand (isa : Isa) (zones : ZoneMap) (line : SourceLine) (m : Macro) (cs : List Char) :
    Except Error (List (SourceLine × List Char)) :=
  m.expand (isa.matchContext zones line) (splitInstruction cs).2

/-- The encoding of a macro is made of the encodings of its lines. -/
theorem encodeAt_macro_eq_ok {depth : Nat} {line : SourceLine} {cs : List Char}
    {e : Encoding} {m : Macro} (hm : isa.operation? cs = some (.expansion m)) :
    isa.encodeAt zones (depth + 1) line cs = .ok e ↔
      ∃ lines steps, isa.expand zones line m cs = .ok lines ∧
        lines.mapM (fun l => isa.encodeAt zones depth l.1 l.2) = .ok steps ∧
        Encoding.concat line steps isa.wordSize = e := by
  unfold operation? at hm
  rw [encodeAt, expand, Macro.expand]
  simp only [hm, bind_eq_ok]
  -- The lines are filled in and encoded one by one; for a success they may as well all be filled in
  -- first.
  have hlines (v : MacroVariant) (operands : List MatchedOperand) (steps : List Encoding) :
      v.templates.zipIdx.mapM (fun t =>
        Error.liftAt line (Macro.fill m.mnemonic t.2 operands t.1) >>= fun text =>
        isa.encodeAt zones depth (line.inMacro m.mnemonic t.2) text) = .ok steps ↔
      ∃ lines, v.templates.zipIdx.mapM (fun t =>
        Error.liftAt line (Macro.fill m.mnemonic t.2 operands t.1) >>=
        fun text => pure (line.inMacro m.mnemonic t.2, text)) = .ok lines ∧
        lines.mapM (fun l => isa.encodeAt zones depth l.1 l.2) = .ok steps := by
    rw [← mapM_bind_eq_ok]
    simp only [bind_assoc, pure_bind]
  constructor
  · rintro ⟨found, hfound, h⟩
    cases found with
    | none => cases h
    | some found =>
      obtain ⟨steps, hsteps, h⟩ := bind_eq_ok.mp h
      obtain ⟨lines, hlines, hsteps⟩ := (hlines found.1 found.2.operands steps).mp hsteps
      exact ⟨lines, steps, ⟨some found, hfound, hlines⟩, hsteps, pure_eq_ok.mp h⟩
  · rintro ⟨lines, steps, ⟨found, hfound, h⟩, hsteps, he⟩
    refine ⟨found, hfound, ?_⟩
    cases found with
    | none => cases h
    | some found =>
      exact bind_eq_ok.mpr ⟨steps, (hlines found.1 found.2.operands steps).mpr ⟨lines, h, hsteps⟩,
        pure_eq_ok.mpr he⟩

/-- How deeply macros may be nested only matters to macros. -/
theorem encodeAt_of_not_macro {line : SourceLine} {cs : List Char}
    (hop : ∀ m, isa.operation? cs ≠ some (.expansion m)) (depth depth' : Nat) :
    isa.encodeAt zones depth line cs = isa.encodeAt zones depth' line cs := by
  rw [encodeAt, encodeAt]
  dsimp only
  split
  · rfl
  · rfl
  · rename_i m hm
    exact absurd hm (hop m)

/-- **What can be encoded in a macro can be encoded on its own**, where macros may be nested more
deeply. -/
theorem encodeAt_succ {depth : Nat} {line : SourceLine} {cs : List Char} {e : Encoding}
    (h : isa.encodeAt zones depth line cs = .ok e) :
    isa.encodeAt zones (depth + 1) line cs = .ok e := by
  induction depth generalizing line cs e with
  | zero =>
    rw [← h]
    refine encodeAt_of_not_macro (fun m hm => ?_) 1 0
    unfold operation? at hm
    rw [encodeAt] at h
    simp only [hm] at h
    cases h
  | succ depth ih =>
    by_cases hop : ∃ m, isa.operation? cs = some (.expansion m)
    · obtain ⟨m, hm⟩ := hop
      obtain ⟨lines, steps, hlines, hsteps, rfl⟩ := (encodeAt_macro_eq_ok hm).mp h
      refine (encodeAt_macro_eq_ok hm).mpr ⟨lines, steps, hlines, ?_, rfl⟩
      exact mapM_eq_ok.mpr ((mapM_eq_ok.mp hsteps).imp fun l s hs => ih hs)
    · rw [← h]
      exact encodeAt_of_not_macro (not_exists.mp hop) _ _

end Isa

/-! ## Places -/

/-- What an instruction knows of its place at an address. -/
def Encoding.siteAt (e : Encoding) (labels : Labels) (zones : ZoneMap) (address : Int) : Site :=
  { labels, zones, address, size := e.wordCount }

/-- **The words of a placed instruction.** Its fields know the address and the size of the whole
item. -/
theorem Item.wordsAt_eq_ok {i : Item} {env : Environment} {e : Encoding}
    (hi : i.statement = .instruction e) {address next : Int} {p : Placement}
    (hp : i.place env address = .ok (p, next)) {words : List Word} {warnings : List String} :
    i.wordsAt env p = .ok (words, warnings) ↔
      e.words (e.siteAt (i.labels env) env.zones address) env.isa.geometry = .ok words ∧
        warnings = [] := by
  have hplace : i.place env address =
      .ok ({ address, wordCount := i.reserve e.wordCount }, address + e.wordCount) := by
    rw [Item.place, Item.extent]
    simp only [hi]
    rfl
  have hreserve : i.reserve e.wordCount = e.wordCount := by
    rw [Item.reserve]
    simp only [hi, Int.toNat_natCast]
  rw [hplace, hreserve] at hp
  cases hp
  rw [Item.wordsAt]
  simp only [hi, bind_eq_ok, pure_eq_ok, Prod.mk.injEq]
  constructor
  · rintro ⟨_, hwords, rfl, rfl⟩
    exact ⟨hwords, rfl⟩
  · rintro ⟨hwords, rfl⟩
    exact ⟨words, hwords, rfl, rfl⟩

namespace Field

variable {site site' : Site} {target : Expression} {zone : ZoneId} {least greatest : Option Int}
  {fromEnd : Bool}
variable {shape : Shape}

/-- A relative address that is measured from the same address is the same, or fails in the same
way. -/
theorem value_relative_congr (hsite : site.Alike site')
    (horigin : site.origin fromEnd = site'.origin fromEnd) :
    (leaf (.relative target zone least greatest fromEnd) shape).value site =
      (leaf (.relative target zone least greatest fromEnd) shape).value site' := by
  have hdistance (v : Int) : (v - site.address - if fromEnd then site.size - 1 else 0) =
      v - site'.address - if fromEnd then site'.size - 1 else 0 := by
    unfold Site.origin at horigin
    omega
  simp only [value, Source.value, hsite.labels_eq, hsite.zones_eq, hdistance]

/-- A relative address that is measured from another address. -/
theorem value_relative_shift (hsite : site.Alike site') {d d' : Int}
    (h : (leaf (.relative target zone least greatest fromEnd) shape).value site = .ok d)
    (h' : (leaf (.relative target zone least greatest fromEnd) shape).value site' = .ok d') :
    d = d' + (site'.origin fromEnd - site.origin fromEnd) := by
  obtain ⟨v, hv, -, rfl, -⟩ := value_relative_eq_ok.mp h
  obtain ⟨v', hv', -, rfl, -⟩ := value_relative_eq_ok.mp h'
  rw [hsite.labels_eq, hv'] at hv
  cases hv
  omega

end Field

/-! ## Steps -/

/-- How many words the steps before a step have. -/
def wordsBefore (steps : List Encoding) (k : Nat) : Nat :=
  ((steps.take k).map Encoding.wordCount).sum

/-- How many words the steps after a step have. -/
def wordsAfter (steps : List Encoding) (k : Nat) : Nat :=
  ((steps.drop (k + 1)).map Encoding.wordCount).sum

theorem wordsBefore_add {steps : List Encoding} {k : Nat} {step : Encoding}
    (hk : steps[k]? = some step) :
    wordsBefore steps k + step.wordCount + wordsAfter steps k =
      (steps.map Encoding.wordCount).sum := by
  obtain ⟨hlt, rfl⟩ := List.getElem?_eq_some_iff.mp hk
  rw [wordsBefore, wordsAfter]
  conv_rhs => rw [← List.take_append_drop k steps, List.drop_eq_getElem_cons hlt]
  rw [List.map_append, List.sum_append, List.map_cons, List.sum_cons, Nat.add_assoc]

/-- How far behind the origin of a macro the origin of a step on its own is, for relative addresses
from the start or from the end. -/
def originShift (steps : List Encoding) (k : Nat) (fromEnd : Bool) : Int :=
  if fromEnd then -wordsAfter steps k else wordsBefore steps k

theorem origin_siteAt {e step : Encoding} {steps : List Encoding} {k : Nat}
    (hk : steps[k]? = some step) {fromEnd : Bool}
    (he : fromEnd = true → e.wordCount = (steps.map Encoding.wordCount).sum) (labels : Labels)
    (zones : ZoneMap) (address : Int) :
    (step.siteAt labels zones (address + wordsBefore steps k)).origin fromEnd =
      (e.siteAt labels zones address).origin fromEnd + originShift steps k fromEnd := by
  have hsum := wordsBefore_add hk
  unfold Site.origin Encoding.siteAt originShift
  cases fromEnd with
  | false => simp
  | true =>
    simp only [he rfl, ← hsum, if_true]
    omega

theorem origin_siteAt_sub (e : Encoding) (labels : Labels) (zones : ZoneMap)
    (address distance : Int) (fromEnd : Bool) :
    (e.siteAt labels zones (address - distance)).origin fromEnd =
      (e.siteAt labels zones address).origin fromEnd - distance := by
  unfold Site.origin Encoding.siteAt
  dsimp only
  omega

theorem Field.leavesOfParts_eq (parts : List Field) :
    leavesOfParts parts = parts.flatMap leaves := by
  induction parts with
  | nil => rfl
  | cons p rest ih => rw [leavesOfParts, List.flatMap_cons, ih]

theorem Encoding.leaves_concat (line : SourceLine) (steps : List Encoding) (wordSize : Nat) :
    (concat line steps wordSize).leaves = steps.flatMap leaves := by
  have hleaves : (leaves : Encoding → List Field) = fun e => e.fields.flatMap Field.leaves := by
    funext e
    exact Field.leavesOfParts_eq e.fields
  simp only [hleaves, concat, List.flatMap_assoc]

/-- **Relative addresses in a macro are measured from the whole macro.** If a macro is encoded, then
so are the lines that it stands for, each on its own. If each of them fills whole words, then the
words of the macro are theirs, but with the address and the size of the macro. A relative address in
step `k` is therefore not that of the step on its own, behind the steps before it, but that of the
step at an address before it, by the distance of the two origins; where both have values, they
differ by as much. The distance is `originShift`. For an address that is measured from the end this
takes runs whose bits can be counted in 32 bits. -/
theorem relative_in_macro (isa : Isa) (zones : ZoneMap) (line : SourceLine) (cs : List Char)
    (m : Macro) (e : Encoding) (hm : isa.operation? cs = some (.expansion m))
    (he : isa.encode zones line cs = .ok e) :
    ∃ lines steps, isa.expand zones line m cs = .ok lines ∧
      lines.mapM (fun l => isa.encode zones l.1 l.2) = .ok steps ∧
      ((∀ s ∈ steps, isa.wordSize ∣ trailingBits s.fields) →
        (∀ (i : Item) (env : Environment) (address next : Int) (p : Placement) (words : List Word),
          env.isa = isa → i.statement = .instruction e → i.place env address = .ok (p, next) →
          (i.wordsAt env p = .ok (words, []) ↔
            ∃ own, List.Forall₂ (fun s w =>
              s.words (e.siteAt (i.labels env) env.zones address) isa.geometry = .ok w)
              steps own ∧ own.flatten = words)) ∧
        ∀ (labels : Labels) (space : ZoneMap) (address : Int) (k : Nat) (step : Encoding)
          (target : Expression) (zone : ZoneId) (least greatest : Option Int) (fromEnd : Bool)
          (shape : Shape),
          let operand := Field.leaf (.relative target zone least greatest fromEnd) shape
          let origin (s : Encoding) (a : Int) := (s.siteAt labels space a).origin fromEnd
          let shift := origin step (address + wordsBefore steps k) - origin e address
          let inMacro := operand.value (e.siteAt labels space address)
          let aloneAt (a : Int) := operand.value (step.siteAt labels space a)
          steps[k]? = some step → operand ∈ step.leaves →
            operand ∈ e.leaves ∧ inMacro = aloneAt (address + wordsBefore steps k - shift) ∧
            (∀ v w, inMacro = .ok v → aloneAt (address + wordsBefore steps k) = .ok w →
              v = w + shift) ∧
            ((fromEnd = true → e.RunsCountable) → shift = originShift steps k fromEnd)) := by
  obtain ⟨lines, steps, hlines, hsteps, rfl⟩ := (Isa.encodeAt_macro_eq_ok hm).mp he
  have hsize : ∀ s ∈ steps, s.wordSize = isa.wordSize := by
    intro s hs
    obtain ⟨l, -, hl⟩ := exists_of_forall₂_right (mapM_eq_ok.mp hsteps) hs
    exact isa.wordSize_encodeAt zones _ _ _ s hl
  refine ⟨lines, steps, hlines, ?_, fun hwhole => ⟨?_, ?_⟩⟩
  · exact mapM_eq_ok.mpr ((mapM_eq_ok.mp hsteps).imp fun l s hs => Isa.encodeAt_succ hs)
  · rintro i env address next p words rfl hi hp
    rw [Item.wordsAt_eq_ok hi hp, Encoding.words_concat hwhole]
    exact and_iff_left rfl
  · intro labels space address k step target zone least greatest fromEnd shape operand origin shift
      inMacro aloneAt hk hmem
    have hsite (a : Int) :
        ((Encoding.concat line steps isa.wordSize).siteAt labels space address).Alike
        (step.siteAt labels space a) := ⟨rfl, rfl⟩
    refine ⟨?_, Field.value_relative_congr (hsite _) ?_, fun v w hv hw => ?_, fun hruns => ?_⟩
    · rw [Encoding.leaves_concat]
      exact List.mem_flatMap_of_mem (List.mem_of_getElem? hk) hmem
    · rw [origin_siteAt_sub, sub_sub_cancel]
    · exact Field.value_relative_shift (hsite _) hv hw
    · have hcount (h : fromEnd = true) :
          (Encoding.concat line steps isa.wordSize).wordCount =
            (steps.map Encoding.wordCount).sum :=
        Encoding.wordCount_concat hsize hwhole (hruns h)
      exact sub_eq_of_eq_add' (origin_siteAt hk hcount labels space address)

/-- One operand with an address relative to the instruction, in a word of its own. -/
def OperandList.target (fromEnd : Bool) : OperandList :=
  let base : OperandBase :=
    { id := "target", code := none, codeSize := 0, place := .after, register := none,
      decoration := none,
      argument := some { size := 8, aligned := true, wordOrder := .big, segmentOrder := .big },
      wordOrder := .big, segmentOrder := .big }
  let targets : OperandSet :=
    { name := "target", operands := [.simple base (.relativeAddress false none none fromEnd)] }
  { count := 1, tuples := [], sets := some { sets := [targets], disallowed := [], reversal := {} } }

/-- A macro of two jumps between steps of one word; the second jump counts from its own end. -/
def Macro.away : Macro where
  mnemonic := "away"
  variants :=
    [{ operands := some (.target false), templates := ["nop", "hop @OP(0)", "skip @OP(0)", "nop"] }]

/-- Words of one byte. -/
def Geometry.byte : Geometry := { size := 8, segment := 8, order := .big }

/-- The instructions of the macro `away`, and the macro. -/
def Isa.hopping : Isa :=
  let instruction (mnemonic : String) (value : Int) (operands : Option OperandList) :
      String × Operation :=
    let opcode : Opcode :=
      { value, size := 8, suffix := none, wordOrder := .big, segmentOrder := .big }
    (mnemonic, .instruction { mnemonic, variants := [{ opcode, operands }] })
  { Isa.bare .byte (by decide) (by decide) with
    instructions :=
      { entries :=
        [instruction "nop" 0 none, instruction "hop" 0x10 (some (.target false)),
          instruction "skip" 0x20 (some (.target true)), ("away", .expansion .away)] } }

/-- The source and the shape of a leaf. -/
def Field.leaf? : Field → Option (Source × Shape)
  | leaf source shape => some (source, shape)
  | group .. => none

theorem Field.leaf?_eq_some {f : Field} {source : Source} {shape : Shape} :
    f.leaf? = some (source, shape) ↔ f = leaf source shape := by
  cases f <;> simp [leaf?]

/-- The operand of a step of `away t`. -/
def Macro.awayTarget (step : Nat) (fromEnd : Bool) : Field :=
  .leaf (.relative { text := "t", term := .label "t" } ZoneMap.globalId none none fromEnd)
    { size := 8, aligned := true, wordOrder := .big, segmentOrder := .big,
      line := (default : SourceLine).inMacro "away" step }

theorem Isa.operation?_away : hopping.operation? "away t".toList = some (.expansion .away) := by rfl

/-- The encoding of `away t`: steps of one, two, two and one words, of which the second and the
third one have targets. -/
theorem Isa.exists_away :
    ∃ e lines first hop skip last, hopping.encode default default "away t".toList = .ok e ∧
    hopping.expand default default .away "away t".toList = .ok lines ∧
    lines.mapM (fun l => hopping.encode default l.1 l.2) = .ok [first, hop, skip, last] ∧
    (∀ s ∈ [first, hop, skip, last], hopping.wordSize ∣ trailingBits s.fields) ∧
    e.RunsCountable ∧
    (e.wordCount = 6 ∧ first.wordCount = 1 ∧ hop.wordCount = 2 ∧ skip.wordCount = 2 ∧
      last.wordCount = 1) ∧
    Macro.awayTarget 1 false ∈ hop.leaves ∧ Macro.awayTarget 2 true ∈ skip.leaves := by
  let view (s : Encoding) := (s.wordCount, trailingBits s.fields, s.leaves[1]?.bind Field.leaf?)
  have hmem {s : Encoding} {k : Nat} {fromEnd : Bool}
      (h : s.leaves[1]?.bind Field.leaf? = (Macro.awayTarget k fromEnd).leaf?) :
      Macro.awayTarget k fromEnd ∈ s.leaves := by
    obtain ⟨f, hf, h⟩ := Option.bind_eq_some_iff.mp h
    rw [Macro.awayTarget, ← Field.leaf?_eq_some.mp h]
    exact List.mem_of_getElem? hf
  have he : (hopping.encode default default "away t".toList).map
      (fun e => (e.wordCount, e.wordSize, (e.fields.map Field.size).sum)) = .ok (6, 8, 48) := by
    decide +kernel
  have hsteps : (hopping.expand default default .away "away t".toList >>= fun lines =>
      (lines.mapM fun l => hopping.encode default l.1 l.2).map (·.map view)) =
        .ok [(1, 8, none), (2, 0, (Macro.awayTarget 1 false).leaf?),
          (2, 0, (Macro.awayTarget 2 true).leaf?), (1, 8, none)] := by
    decide +kernel
  obtain ⟨e, he, hwidths⟩ := map_eq_ok.mp he
  obtain ⟨hcount, hsize, hsum⟩ : e.wordCount = 6 ∧ e.wordSize = 8 ∧
    (e.fields.map Field.size).sum = 48 := by
    simpa using hwidths
  have hruns : e.RunsCountable := .of_sum_lt (by rw [hsize, hsum]; decide)
  obtain ⟨lines, hlines, hsteps⟩ := bind_eq_ok.mp hsteps
  obtain ⟨steps, hsteps, hview⟩ := map_eq_ok.mp hsteps
  simp only [List.map_eq_cons_iff, List.map_eq_nil_iff, view, Prod.mk.injEq] at hview
  obtain ⟨first, _, rfl, ⟨hfirst, hfirst', -⟩, hop, _, rfl, ⟨hhop, hhop', htarget⟩, skip, _, rfl,
    ⟨hskip, hskip', htarget'⟩, last, _, rfl, ⟨hlast, hlast', -⟩, rfl⟩ := hview
  refine ⟨e, lines, first, hop, skip, last, he, hlines, hsteps, ?_, hruns,
    ⟨hcount, hfirst, hhop, hskip, hlast⟩, hmem htarget, hmem htarget'⟩
  simp [hfirst', hhop', hskip', hlast', show hopping.wordSize = 8 from rfl]

/-- The macro `away t` at address 0x10, with `t` at 0x20. In the macro the two targets are 0x10
words from its first and 0xb words from its last word; on their own, at 0x11 and 0x13, the two steps
give 0xf and 0xc. -/
theorem relative_in_macro_both_ends :
    let isa := Isa.hopping
    let cs := "away t".toList
    let labels : Labels := fun _ => some 0x20
    let zone : Zone := { name := "GLOBAL", bits := 8, first := 0, last := 0xff, cursor := 0 }
    let space : ZoneMap := { bits := 8, global := zone, others := [] }
    let hop := Macro.awayTarget 1 false
    let skip := Macro.awayTarget 2 true
    isa.operation? cs = some (.expansion .away) ∧ ∃ e, isa.encode default default cs = .ok e ∧
      ∃ lines steps, isa.expand default default .away cs = .ok lines ∧
        lines.mapM (fun l => isa.encode default l.1 l.2) = .ok steps ∧
        (∀ s ∈ steps, isa.wordSize ∣ trailingBits s.fields) ∧ hop ∈ e.leaves ∧ skip ∈ e.leaves ∧
        hop.value (e.siteAt labels space 0x10) = .ok 0x10 ∧
          skip.value (e.siteAt labels space 0x10) = .ok 0xb ∧
        ∃ first second, steps[1]? = some first ∧ steps[2]? = some second ∧
          hop.value (first.siteAt labels space 0x11) = .ok 0xf ∧
            (0x10 : Int) = 0xf + originShift steps 1 false ∧
          skip.value (second.siteAt labels space 0x13) = .ok 0xc ∧
            (0xb : Int) = 0xc + originShift steps 2 true := by
  intro isa cs labels zone space hop skip
  obtain ⟨e, lines, s₀, s₁, s₂, s₃, he, hlines, hsteps, hwhole, hruns, ⟨hcount, h₀, h₁, h₂, -⟩,
    hhop, hskip⟩ :=
    Isa.exists_away
  have hm : isa.operation? cs = some (.expansion .away) := Isa.operation?_away
  obtain ⟨lines', steps, hlines', hsteps', h⟩ :=
    relative_in_macro isa default default cs .away e hm he
  obtain rfl := Except.ok.inj (hlines.symm.trans hlines')
  obtain rfl := Except.ok.inj (hsteps.symm.trans hsteps')
  obtain ⟨-, h⟩ := h hwhole
  obtain ⟨hmem₁, -, hshift₁, horigin₁⟩ := h labels space 0x10 1 s₁ _ _ _ _ _ _ rfl hhop
  obtain ⟨hmem₂, -, hshift₂, horigin₂⟩ := h labels space 0x10 2 s₂ _ _ _ _ _ _ rfl hskip
  rw [horigin₁ fun _ => hruns] at hshift₁
  rw [horigin₂ fun _ => hruns] at hshift₂
  have hv₁ : hop.value (e.siteAt labels space 0x10) = .ok 0x10 := by
    rw [Encoding.siteAt, hcount]
    decide +kernel
  have hv₂ : skip.value (e.siteAt labels space 0x10) = .ok 0xb := by
    rw [Encoding.siteAt, hcount]
    decide +kernel
  have hw₁ : hop.value (s₁.siteAt labels space 0x11) = .ok 0xf := by
    rw [Encoding.siteAt, h₁]
    decide +kernel
  have hw₂ : skip.value (s₂.siteAt labels space 0x13) = .ok 0xc := by
    rw [Encoding.siteAt, h₂]
    decide +kernel
  have hbefore₁ : (0x10 : Int) + wordsBefore [s₀, s₁, s₂, s₃] 1 = 0x11 := by simp [wordsBefore, h₀]
  have hbefore₂ : (0x10 : Int) + wordsBefore [s₀, s₁, s₂, s₃] 2 = 0x13 := by
    simp [wordsBefore, h₀, h₁]
  rw [hbefore₁] at hshift₁
  rw [hbefore₂] at hshift₂
  exact ⟨hm, e, he, lines, _, hlines, hsteps, hwhole, hmem₁, hmem₂, hv₁, hv₂, s₁, s₂, rfl, rfl, hw₁,
    hshift₁ _ _ hv₁ hw₁, hw₂, hshift₂ _ _ hv₂ hw₂⟩

/-- Relative addresses in a macro are not measured from the steps that they stand in. -/
theorem relative_in_macro_not_from_step :
    ¬ ∀ (isa : Isa) (zones : ZoneMap) (line : SourceLine) (cs : List Char) (m : Macro)
      (e : Encoding)
      (lines : List (SourceLine × List Char)) (steps : List Encoding),
      isa.operation? cs = some (.expansion m) → isa.encode zones line cs = .ok e →
      isa.expand zones line m cs = .ok lines →
        lines.mapM (fun l => isa.encode zones l.1 l.2) = .ok steps →
      (∀ s ∈ steps, isa.wordSize ∣ trailingBits s.fields) →
      ∀ (labels : Labels) (space : ZoneMap) (address : Int) (k : Nat) (step : Encoding)
        (target : Expression) (zone : ZoneId) (least greatest : Option Int) (fromEnd : Bool)
        (shape : Shape),
        let operand := Field.leaf (.relative target zone least greatest fromEnd) shape
        steps[k]? = some step → operand ∈ step.leaves →
          operand.value (e.siteAt labels space address) =
            operand.value (step.siteAt labels space (address + wordsBefore steps k)) := by
  intro h
  obtain ⟨e, lines, s₀, s₁, s₂, s₃, he, hlines, hsteps, hwhole, -,
    ⟨hcount, h₀, h₁, -, -⟩, hhop, -⟩ :=
    Isa.exists_away
  let zone : Zone := { name := "GLOBAL", bits := 8, first := 0, last := 0xff, cursor := 0 }
  let space : ZoneMap := { bits := 8, global := zone, others := [] }
  have hsame := h _ _ _ _ _ _ _ _ Isa.operation?_away he hlines hsteps hwhole (fun _ =>
    some 0x20) space 0x10 1 s₁
    _ _ _ _ _ _ rfl hhop
  have hbefore : wordsBefore [s₀, s₁, s₂, s₃] 1 = 1 := by simp [wordsBefore, h₀]
  rw [hbefore, Encoding.siteAt, Encoding.siteAt, hcount, h₁] at hsame
  revert hsame
  decide +kernel

end Retarget
