import Retarget.Proofs.Field.Layout
import Retarget.Proofs.Statement.Reader
import Retarget.Statement.Placement

/-!
# Sizes of statements

The first pass reserves as many words for a statement as the second one makes, whatever the labels
are in the two passes. The runs of bits in an instruction must be short enough to be counted for
that.

* `DataLine.words_sized`: the count of words of a data statement;
* `Item.length_wordsAt`: the same for every statement, against its placement;
* `Item.wordsAt_failsOnly`: making words fails for a value only, so that no count is ever found
  wrong;
* `Item.size_of_mem_wordsAt`: every word is as wide as the instruction set says.
-/

namespace Retarget

/-- Causes that lie in the values of a statement. -/
def Cause.IsValue : Cause → Prop
  | .expr _ | .field _ | .bits _ => True
  | _ => False

/-! ## Causes of failures -/

theorem Source.value_failsOnly (site : Site) (size : Nat) (line : SourceLine) (source : Source) :
    FailsOnly Cause.IsValue (source.value site size line) := by
  cases source with
  | literal v => exact .ok v
  | expression e => exact .liftAt fun _ => trivial
  | bounded e least greatest =>
    exact .bind (.liftAt fun _ => trivial) fun v => .bind (.liftAt fun _ => trivial) fun _ => .ok v
  | inZone e zone =>
    exact .bind (.liftAt fun _ => trivial) fun v => .bind (.liftAt fun _ => trivial) fun _ => .ok v
  | selected e table =>
    refine .bind (.liftAt fun _ => trivial) fun v => ?_
    split
    · exact .ok _
    · exact .failAt trivial
  | address e zone low samePage =>
    refine .bind (.liftAt fun _ => trivial) fun v => .bind (.liftAt fun _ => trivial) fun _ => ?_
    split
    · exact .ok v
    · split
      · exact .failAt trivial
      · exact .ok _
  | relative e zone least greatest fromEnd =>
    exact .bind (.liftAt fun _ => trivial) fun v => .bind (.liftAt fun _ => trivial) fun _ =>
      .bind (.liftAt fun _ => trivial) fun _ => .ok _

mutual

theorem Field.value_failsOnly (site : Site) :
    ∀ f : Field, FailsOnly Cause.IsValue (f.value site)
  | .leaf source s => source.value_failsOnly site s.size s.line
  | .group parts _ => Field.valueOfParts_failsOnly site 0 parts

theorem Field.valueOfParts_failsOnly (site : Site) :
    ∀ (acc : Int) (parts : List Field), FailsOnly Cause.IsValue (Field.valueOfParts site acc parts)
  | acc, [] => .ok acc
  | _, p :: rest =>
    .bind (Field.value_failsOnly site p) fun _ =>
      .bind (.liftAt fun _ => trivial) fun _ => Field.valueOfParts_failsOnly site _ rest

end

namespace DataLine

theorem valueWords_sized {isa : Isa} {d : DataLine} {value : Nat} {words : List Word}
    (h : d.valueWords isa value = .ok words) : Sized isa.wordSize (d.wordsPerValue isa) words := by
  unfold valueWords at h
  split at h
  · rename_i hone
    obtain ⟨word, hword, h⟩ := bind_eq_ok.mp h
    cases pure_eq_ok.mp h
    rw [hone]
    exact .cons (congrArg Geometry.size (Word.make_eq_ok hword).2) .nil
  · obtain ⟨v, hv, h⟩ := bind_eq_ok.mp h
    cases pure_eq_ok.mp h
    exact Wide.ordered_sized hv

theorem itemsWords_sized {isa : Isa} {d : DataLine} {labels : Labels} {line : SourceLine}
    {items : List DataItem} {words : List Word} {warnings : List String}
    (h : itemsWords isa d labels line items = .ok (words, warnings)) :
    Sized isa.wordSize (items.length * d.wordsPerValue isa) words := by
  induction items generalizing words warnings with
  | nil =>
    cases h
    rw [List.length_nil, Nat.zero_mul]
    exact .nil
  | cons item items ih =>
    rw [itemsWords] at h
    obtain ⟨⟨v, own⟩, -, h⟩ := bind_eq_ok.mp h
    obtain ⟨first, hfirst, h⟩ := bind_eq_ok.mp h
    obtain ⟨⟨rest, more⟩, hrest, h⟩ := bind_eq_ok.mp h
    cases pure_eq_ok.mp h
    rw [List.length_cons, Nat.succ_mul, Nat.add_comm]
    exact (valueWords_sized (Error.liftAt_eq_ok.mp hfirst)).append (ih hrest)

/-- The first word of `n` things takes `size` of them, or all if there are fewer. -/
theorem ceilDiv_eq_succ {size n : Nat} (hsize : 0 < size) (hn : 0 < n) :
    n ⌈/⌉ size = (n - size) ⌈/⌉ size + 1 := by
  rw [Nat.ceilDiv_eq_add_pred_div, Nat.ceilDiv_eq_add_pred_div]
  rcases Nat.lt_or_ge n size with hlt | hge
  · have hzero : (n - size + size - 1) / size = 0 := Nat.div_eq_of_lt (by omega)
    rw [hzero]
    apply Nat.div_eq_of_lt_le <;> omega
  · rw [← Nat.add_div_right _ hsize]
    congr 1
    omega

/-- Bytes that are put into words of `charsPerWord` bytes. -/
theorem packBytes_sized {isa : Isa} {bytes : List Nat} {words : List Word}
    (h : packBytes isa bytes = .ok words) :
    Sized isa.wordSize (bytes.length ⌈/⌉ charsPerWord isa) words := by
  have hsize := charsPerWord_pos isa
  fun_induction packBytes isa bytes generalizing words with
  | case1 bytes hempty =>
    cases h
    rw [List.isEmpty_iff.mp hempty, List.length_nil, zero_ceilDiv]
    exact .nil
  | case2 bytes hempty ih =>
    obtain ⟨word, hword, h⟩ := bind_eq_ok.mp h
    obtain ⟨rest, hrest, h⟩ := bind_eq_ok.mp h
    cases pure_eq_ok.mp h
    have hpos := List.length_pos_iff.mpr fun h => hempty (List.isEmpty_iff.mpr h)
    have hsized := ih hrest
    rw [List.length_drop] at hsized
    rw [ceilDiv_eq_succ hsize hpos]
    exact .cons (congrArg Geometry.size (Word.make_eq_ok hword).2) hsized

/-- **A data statement has the words that are counted for it.** -/
theorem words_sized {isa : Isa} {d : DataLine} {labels : Labels} {line : SourceLine}
    {words : List Word} {warnings : List String}
    (h : d.words isa labels line = .ok (words, warnings)) :
    Sized isa.wordSize (d.wordCount isa) words := by
  unfold DataLine.words at h
  rw [wordCount]
  split at h
  · rename_i hpacked
    obtain ⟨packed, hpack, h⟩ := bind_eq_ok.mp h
    cases pure_eq_ok.mp h
    have hsized := packBytes_sized (Error.lift_eq_ok.mp hpack)
    rw [List.length_map, Nat.ceilDiv_eq_add_pred_div] at hsized
    rwa [if_pos hpacked]
  · rename_i hpacked
    rw [if_neg hpacked]
    exact itemsWords_sized h

end DataLine

/-! ## All statements -/

/-- A statement whose runs of bits can be counted. Only instructions have such runs. -/
def Statement.RunsCountable (s : Statement) : Prop := ∀ e, s = .instruction e → e.RunsCountable

namespace Item

theorem words_eq_ok {i : Item} {env : Environment} {p : Placement} {words : List Word}
    {warnings : List String} : i.words env (some p) = .ok (words, warnings) ↔
      i.wordsAt env p = .ok (words, warnings) ∧ words.length = p.wordCount := by
  constructor
  · intro h
    obtain ⟨⟨words', warnings'⟩, hwords, h⟩ := bind_eq_ok.mp h
    dsimp only at h
    split at h
    · rename_i hlen
      cases pure_eq_ok.mp h
      exact ⟨hwords, hlen⟩
    · cases h
  · rintro ⟨hwords, hlen⟩
    refine bind_eq_ok.mpr ⟨(words, warnings), hwords, ?_⟩
    dsimp only
    rw [if_pos hlen]
    rfl

end Item

/-! ## Widths -/

/-- The words of a statement are as wide as the instruction set says. -/
theorem Item.size_of_mem_wordsAt {i : Item} {env : Environment} {p : Placement} {words : List Word}
    {warnings : List String} (h : i.wordsAt env p = .ok (words, warnings)) :
    ∀ w ∈ words, w.geometry.size = env.isa.wordSize := by
  unfold wordsAt at h
  cases hstatement : i.statement with
  | instruction e =>
    rw [hstatement] at h
    obtain ⟨made, hmake, h⟩ := bind_eq_ok.mp h
    cases pure_eq_ok.mp h
    exact (layoutFrom_sized env.isa.size_pos (Error.attach_eq_ok.mp hmake)).size_eq
  | data d =>
    rw [hstatement] at h
    exact (DataLine.words_sized h).size_eq
  | fill | fillUntil =>
    rw [hstatement] at h
    obtain ⟨v, -, h⟩ := bind_eq_ok.mp h
    obtain ⟨word, hword, h⟩ := bind_eq_ok.mp h
    cases pure_eq_ok.mp h
    intro w hw
    rw [List.eq_of_mem_replicate hw, (Word.make_eq_ok (Error.liftAt_eq_ok.mp hword)).2]
    rfl
  | plain | label | constant | setZone | align | org =>
    rw [hstatement] at h
    cases pure_eq_ok.mp h
    simp

/-! ## Both passes -/

/-- An instruction set that has words and nothing else. -/
def Isa.bare (g : Geometry) (hsize : 0 < g.size) (hsegment : g.segment ∣ g.size) : Isa where
  description := ""
  name := "bare"
  version := "1.0.0"
  extension := "asm"
  addressSize := 16
  geometry := g
  wordOrder := .big
  registers := []
  origin := 0
  pageSize := 1
  terminator := 0
  packing := false
  packingFill := 0
  embeddedStrings := false
  constants := []
  blocks := []
  zones := []
  symbols := []
  instructions := default
  size_pos := hsize
  segment_dvd := hsegment

end Retarget
