import Mathlib.Algebra.Order.Ring.Int
import Mathlib.Data.Int.Bitwise
import Retarget.Field.Basic
import Retarget.Proofs.Bits.Signed
import Retarget.Proofs.Zone.Calls

/-!
# Relative and paged addresses

An instruction need not hold the whole address of its target. It may hold the distance to it, or the
low bits of a target on its own page.

* `Zone.check_eq_ok`, `Limited.check_eq_ok`: what the checks of an address accept;
* `Field.value_relative_eq_ok`: when a relative address has a value; `relative_address_reads_back`:
  when the target is read back from its pattern;
* `Field.value_paged_eq_ok`: when a paged address has a value; `paged_address_reads_back`: the
  target is read back from it, whatever the width is.
-/

namespace Retarget

/-! ## Checks -/

theorem Zone.check_eq_ok {z : Zone} {v : Int} {u : Unit} :
    z.check v = .ok u ↔ z.contains v = true := by
  simp only [check, contains, Bool.and_eq_true, decide_eq_true_iff]
  split
  · exact iff_of_false (by simp) (by omega)
  · split
    · exact iff_of_false (by simp) (by omega)
    · exact iff_of_true rfl (by omega)

theorem Limited.check_eq_ok {what : Limited} {least greatest : Option Int} {v : Int} {u : Unit} :
    what.check least greatest v = .ok u ↔ (∀ g ∈ greatest, v ≤ g) ∧ ∀ l ∈ least, l ≤ v := by
  rw [check]
  cases hg : greatest.filter (· < v) with
  | some g =>
    obtain ⟨rfl, hlt⟩ := Option.filter_eq_some_iff.mp hg
    exact iff_of_false (by simp) fun h => absurd (h.1 g rfl) (by simpa using hlt)
  | none =>
    have hgreatest : ∀ g ∈ greatest, v ≤ g := by simpa using hg
    cases hl : least.filter (v < ·) with
    | some l =>
      obtain ⟨rfl, hlt⟩ := Option.filter_eq_some_iff.mp hl
      exact iff_of_false (by simp) fun h => absurd (h.2 l rfl) (by simpa using hlt)
    | none => exact iff_of_true rfl ⟨hgreatest, by simpa using hl⟩

/-! ## Relative addresses -/

/-- The address from which relative addresses are measured. -/
def Site.origin (site : Site) (fromEnd : Bool) : Int :=
  site.address + if fromEnd then site.size - 1 else 0

/-- **The value of a relative address** is the distance to a target in the zone, within the
limits. -/
theorem Field.value_relative_eq_ok {site : Site} {target : Expression} {zone : ZoneId}
    {least greatest : Option Int} {fromEnd : Bool} {shape : Shape} {d : Int} :
    (leaf (.relative target zone least greatest fromEnd) shape).value site = .ok d ↔
      ∃ t, target.eval site.labels = .ok t ∧ (site.zones.get zone).contains t = true ∧
        d = t - site.origin fromEnd ∧ (∀ g ∈ greatest, d ≤ g) ∧ ∀ l ∈ least, l ≤ d := by
  have hdistance (t : Int) : (t - site.address - if fromEnd then site.size - 1 else 0) =
      t - site.origin fromEnd := by
    unfold Site.origin
    omega
  simp only [value, Source.value, bind_eq_ok, Error.liftAt_eq_ok, pure_eq_ok, hdistance]
  constructor
  · rintro ⟨t, ht, _, hzone, _, hlimits, rfl⟩
    exact ⟨t, ht, Zone.check_eq_ok.mp hzone, rfl, Limited.check_eq_ok.mp hlimits⟩
  · rintro ⟨t, ht, hzone, rfl, hlimits⟩
    exact ⟨t, ht, (), Zone.check_eq_ok.mpr hzone, (), Limited.check_eq_ok.mpr hlimits, rfl⟩

/-- **Relative addresses below the sign give back their target.** Let the pattern of a relative
address be read in two's complement. From the address of the instruction, or from that of its last
word, it leads to the target exactly if the distance is below the sign of the field; a maximum of
the operand below the sign is enough for that. A greater distance is accepted as an unsigned number.
Read as one it leads to the target, and in two's complement it falls short of it by the whole range
of the field. -/
theorem relative_address_reads_back (site : Site) (target : Expression) (zone : ZoneId)
    (least greatest : Option Int) (fromEnd : Bool) (shape : Shape) (hpos : 1 ≤ shape.size)
    (hsize : shape.size ≤ 126) (v : Int) (s : Slice)
    (hv : (Field.leaf (.relative target zone least greatest fromEnd) shape).value site = .ok v)
    (hs : Slice.make v shape.size = .ok s) :
    let n := shape.size
    let d := ofSigned (bitsOf s.raw n)
    let origin := site.address + if fromEnd then site.size - 1 else 0
    ∃ t, target.eval site.labels = .ok t ∧ (origin + d = t ↔ v < 2 ^ (n - 1)) ∧
      (2 ^ (n - 1) ≤ v → origin + s.raw = t ∧ origin + d = t - 2 ^ n) ∧
      ∀ g ∈ greatest, g < 2 ^ (n - 1) → origin + d = t := by
  intro n d origin
  obtain ⟨t, ht, -, rfl, hgreatest, -⟩ := Field.value_relative_eq_ok.mp hv
  obtain ⟨hlow, hhigh⟩ := (Slice.exists_make_iff hpos hsize).mp ⟨s, hs⟩
  obtain ⟨hraw, hbits⟩ := Slice.raw_of_make hs
  have hread := ofSigned_twosComplement_eq_iff (v := t - site.origin fromEnd) hpos
  rw [← hbits] at hread
  have hbelow : origin + d = t ↔ t - site.origin fromEnd < 2 ^ (n - 1) := calc
    origin + d = t ↔ d = t - site.origin fromEnd := eq_sub_iff_add_eq'.symm
    _ ↔ _ := hread.trans (and_iff_right hlow)
  refine ⟨t, ht, hbelow, fun hsign => ?_, fun g hg hlt => ?_⟩
  · have hnonneg : 0 ≤ t - site.origin fromEnd := le_trans (Int.pow_nonneg (by decide)) hsign
    have hd : d = t - site.origin fromEnd - 2 ^ n := by
      rw [← ofSigned_twosComplement_of_le hpos hsign hhigh, ← hbits]
    rw [hraw, Int.emod_eq_of_lt hnonneg hhigh, hd]
    show site.origin fromEnd + _ = t ∧ site.origin fromEnd + _ = _
    omega
  · exact hbelow.mpr (Int.lt_of_le_of_lt (hgreatest g hg) hlt)

/-- A place in a space of 16 bits, for an operand whose only label is the target. -/
def Site.toward (t address size : Int) : Site where
  labels _ := some t
  zones :=
    let global : Zone :=
      { name := ZoneMap.globalName, bits := 16, first := 0, last := 0xffff, cursor := 0 }
    { bits := 16, global, others := [] }
  address
  size

/-- The target of an operand, as a label. -/
def Expression.toward : Expression := { text := "t", term := .label "t" }

/-- A field of the given width on its own. -/
def Shape.alone (size : Nat) : Shape :=
  { size, aligned := false, wordOrder := .big, segmentOrder := .big, line := default }

/-- From the last word of an instruction of two words at 0x1200, the target 0x1190 is 0x71 words
back. Without a maximum, 200 words ahead of 0x1200 are accepted as well; with a sign they are read
as 56 words back. -/
theorem relative_address_reads_back_both_ways :
    let back := Field.leaf (.relative .toward 0 (some (-128)) (some 127) true) (.alone 8)
    let ahead := Field.leaf (.relative .toward 0 none none false) (.alone 8)
    (∃ s, back.value (.toward 0x1190 0x1200 2) = .ok (-0x71) ∧ Slice.make (-0x71) 8 = .ok s ∧
      0x1200 + (2 - 1) + ofSigned (bitsOf s.raw 8) = 0x1190) ∧
    ∃ s, ahead.value (.toward 0x12c8 0x1200 2) = .ok 200 ∧ Slice.make 200 8 = .ok s ∧
      0x1200 + 0 + (s.raw : Int) = 0x12c8 ∧ 0x1200 + 0 + ofSigned (bitsOf s.raw 8) =
        0x12c8 - 2 ^ 8 := by
  intro back ahead
  have hback : back.value (.toward 0x1190 0x1200 2) = .ok (-0x71) := by decide +kernel
  have hahead : ahead.value (.toward 0x12c8 0x1200 2) = .ok 200 := by decide +kernel
  obtain ⟨t, ht, -, -, hbelow⟩ :=
    relative_address_reads_back _ _ _ _ _ _ (.alone 8) (by decide) (by decide) _ _ hback rfl
  cases ht
  obtain ⟨t, ht, -, habove, -⟩ :=
    relative_address_reads_back _ _ _ _ _ _ (.alone 8) (by decide) (by decide) _ _ hahead rfl
  cases ht
  exact ⟨⟨_, hback, rfl, hbelow 127 rfl (by decide)⟩, _, hahead, rfl, habove (by decide)⟩

/-- A distance of 200 words is not read back from a byte. -/
theorem relative_address_beyond_sign :
    ¬ ∀ (site : Site) (target : Expression) (zone : ZoneId) (least greatest : Option Int)
      (fromEnd : Bool)
      (shape : Shape) (v : Int) (s : Slice), 1 ≤ shape.size → shape.size ≤ 126 →
      (Field.leaf (.relative target zone least greatest fromEnd) shape).value site = .ok v →
      Slice.make v shape.size = .ok s →
      ∃ t, target.eval site.labels = .ok t ∧
        site.address + ofSigned (bitsOf s.raw shape.size) + (if fromEnd then site.size - 1 else 0) =
          t := by
  intro h
  have hahead : (Field.leaf (.relative .toward 0 none none false) (.alone 8)).value
      (.toward 200 0 1) = .ok 200 := by
    decide +kernel
  obtain ⟨t, ht, hread⟩ := h _ _ _ _ _ _ (.alone 8) _ _ (by decide) (by decide) hahead rfl
  cases ht
  revert hread
  decide

/-! ## Paged addresses -/

section Pages

variable {v a t : Int}

theorem Number.shiftRight_eq_ediv (hv : 0 ≤ v) (hlt : v < 2 ^ 127) (n : Nat) :
    shiftRight v n = v / 2 ^ n := by
  unfold shiftRight
  split
  · exact_mod_cast Int.shiftRight_eq_div_pow v n
  · have hle : (2 : Int) ^ 127 ≤ 2 ^ n := pow_le_pow_right₀ (by decide) (by omega)
    rw [Int.ediv_eq_zero_of_lt hv (by omega)]

theorem Source.lowBits_eq_emod (hv : 0 ≤ v) (hlt : v < 2 ^ 127) (n : Nat) :
    lowBits n v = v % 2 ^ n := by
  unfold lowBits
  split
  · rfl
  · have hle : (2 : Int) ^ 127 ≤ 2 ^ n := pow_le_pow_right₀ (by decide) (by omega)
    rw [Int.emod_eq_of_lt hv (by omega)]

/-- Numbers on the same page have the same bits from its width on. -/
theorem ediv_eq_iff_testBit (ha : 0 ≤ a) (ht : 0 ≤ t) (n : Nat) :
    a / 2 ^ n = t / 2 ^ n ↔ ∀ k, n ≤ k → t.testBit k = a.testBit k := by
  lift a to ℕ using ha
  lift t to ℕ using ht
  show (a : Int) / 2 ^ n = t / 2 ^ n ↔ ∀ k, n ≤ k → Nat.testBit t k = Nat.testBit a k
  have hcast : (a : Int) / 2 ^ n = t / 2 ^ n ↔ a / 2 ^ n = t / 2 ^ n := by norm_cast
  rw [hcast]
  constructor
  · intro h k hk
    have hbit := congrArg (Nat.testBit · (k - n)) h
    simpa [Nat.testBit_div_two_pow, Nat.sub_add_cancel hk, eq_comm] using hbit
  · intro h
    apply Nat.eq_of_testBit_eq
    intro k
    rw [Nat.testBit_div_two_pow, Nat.testBit_div_two_pow, h (k + n) (by omega)]

theorem testBit_emod (ht : 0 ≤ t) (n k : Nat) :
    (t % 2 ^ n).testBit k = (decide (k < n) && t.testBit k) := by
  lift t to ℕ using ht
  have hcast : (t : Int) % 2 ^ n = ((t % 2 ^ n : Nat) : Int) := by norm_cast
  rw [hcast]
  exact Nat.testBit_mod_two_pow t n k

end Pages

theorem maxAddress_lt (bits : Nat) : maxAddress bits < 2 ^ 127 := by
  unfold maxAddress
  split
  · decide
  · have hle : (2 : Int) ^ bits ≤ 2 ^ 127 := pow_le_pow_right₀ (by decide) (by omega)
    omega

/-- Every address in a zone is a number that is not negative. -/
theorem Zone.Fits.of_contains {z : Zone} {bits : Nat} {t : Int} (h : z.Fits bits)
    (ht : z.contains t = true) : 0 ≤ t ∧ t < 2 ^ 127 := by
  have hfirst := h.first_nonneg
  have hlast := h.last_le
  have hmax := maxAddress_lt bits
  simp only [contains, Bool.and_eq_true, decide_eq_true_iff] at ht
  omega

namespace Field

variable {site : Site} {target : Expression} {zone : ZoneId} {shape : Shape} {bits : Nat}

/-- **The value of a paged address** is the place on its page of a target in the zone, on the page
of the instruction. -/
theorem value_paged_eq_ok {v : Int} (hzone : (site.zones.get zone).Fits bits)
    (haddress : 0 ≤ site.address) (hlt : site.address < 2 ^ 127) :
    (leaf (.address target zone true true) shape).value site = .ok v ↔
      ∃ t, target.eval site.labels = .ok t ∧ (site.zones.get zone).contains t = true ∧
        site.address / 2 ^ shape.size = t / 2 ^ shape.size ∧ t % 2 ^ shape.size = v := by
  simp only [value, Source.value, bind_eq_ok, Error.liftAt_eq_ok]
  refine exists_congr fun t => and_congr_right fun _ => ?_
  by_cases hin : (site.zones.get zone).contains t = true
  · obtain ⟨hnonneg, hbelow⟩ := hzone.of_contains hin
    rw [Number.shiftRight_eq_ediv haddress hlt, Number.shiftRight_eq_ediv hnonneg hbelow,
      Source.lowBits_eq_emod hnonneg hbelow]
    by_cases hpage : site.address / 2 ^ shape.size = t / 2 ^ shape.size
    · simp [Zone.check_eq_ok, hin, hpage]
    · simp [hpage, Error.failAt]
  · simp [Zone.check_eq_ok, hin]

/-- A paged address has a value if the bits above the field are those of the address of the
instruction. -/
theorem exists_value_paged_iff (hzone : (site.zones.get zone).Fits bits)
    (haddress : 0 ≤ site.address) (hlt : site.address < 2 ^ 127) :
    (∃ v, (leaf (.address target zone true true) shape).value site = .ok v) ↔
      ∃ t, target.eval site.labels = .ok t ∧ (site.zones.get zone).contains t = true ∧
        ∀ k, shape.size ≤ k → t.testBit k = site.address.testBit k := by
  have hpage {t : Int} (hin : (site.zones.get zone).contains t = true) :=
    ediv_eq_iff_testBit haddress (hzone.of_contains hin).1 shape.size
  simp only [value_paged_eq_ok hzone haddress hlt]
  constructor
  · rintro ⟨_, t, ht, hin, hsame, -⟩
    exact ⟨t, ht, hin, (hpage hin).mp hsame⟩
  · rintro ⟨t, ht, hin, hbits⟩
    exact ⟨_, t, ht, hin, (hpage hin).mpr hbits, rfl⟩

end Field

/-- **A paged address gives back its target, whatever its width is.** Let the zones be those of any
history. If the operand has a value, the value has the width of the field, and the address of the
instruction with its low bits replaced by those of the value is the target. There is no value
exactly if the target has none, is outside the zone, or differs from the address of the instruction
in a bit above the field. -/
theorem paged_address_reads_back (bits : Nat) (origin : Int) (start : ZoneMap)
    (hstart : ZoneMap.make bits origin = .ok start) (calls : List ZoneMap.Call) (site : Site)
    (hzones : site.zones = start.applyAll calls) (haddress : 0 ≤ site.address)
    (hfits : Number.fits site.address = true) (target : Expression) (zone : ZoneId)
    (shape : Shape) :
    let operand := Field.leaf (.address target zone true true) shape
    let n := shape.size
    (∀ v, operand.value site = .ok v → 0 ≤ v ∧ v < 2 ^ n ∧ ∃ t, target.eval site.labels = .ok t ∧
      site.address / 2 ^ n * 2 ^ n + v = t ∧
      ∀ k, t.testBit k = if k < n then v.testBit k else site.address.testBit k) ∧
    ((∃ e, operand.value site = .error e) ↔ (∃ e, target.eval site.labels = .error e) ∨
      ∃ t, target.eval site.labels = .ok t ∧ ((site.zones.get zone).contains t = false ∨
        ∃ k, n ≤ k ∧ t.testBit k ≠ site.address.testBit k)) := by
  intro operand n
  have hpos : (0 : Int) < 2 ^ n := Int.pow_pos (by decide)
  have hzone : (site.zones.get zone).Fits bits := by
    rw [hzones]
    exact ((ZoneMap.Sound.of_make hstart).applyAll calls).1.fits _ (ZoneMap.get_mem_toList _ _)
  have hlt := (Number.fits_iff.mp hfits).2
  constructor
  · intro v hv
    obtain ⟨t, ht, hin, hpage, rfl⟩ := (Field.value_paged_eq_ok hzone haddress hlt).mp hv
    obtain ⟨hnonneg, -⟩ := hzone.of_contains hin
    refine ⟨Int.emod_nonneg t hpos.ne', Int.emod_lt_of_pos t hpos, t, ht, ?_, fun k => ?_⟩
    · rw [hpage]
      exact Int.ediv_mul_add_emod t (2 ^ n)
    · by_cases hk : k < n
      · rw [if_pos hk, testBit_emod hnonneg, decide_eq_true hk, Bool.true_and]
      · rw [if_neg hk]
        exact (ediv_eq_iff_testBit haddress hnonneg n).mp hpage k (by omega)
  · rw [exists_error_iff, exists_error_iff, Field.exists_value_paged_iff hzone haddress hlt]
    cases target.eval site.labels with
    | error e => simp
    | ok t => grind

/-- The low byte of the target 0x1210 is enough for an instruction at 0x1200, but not for one at
0x1300. A field of 200 bits is wider than all addresses and holds the target itself. -/
theorem paged_address_reads_back_byte :
    let operand (size : Nat) := Field.leaf (.address .toward 0 true true) (.alone size)
    let site (address : Int) := Site.toward 0x1210 address 2
    ZoneMap.make 16 0 = .ok (site 0).zones ∧
    (∃ v, (operand 8).value (site 0x1200) = .ok v ∧ v < 2 ^ 8 ∧
      0x1200 / 2 ^ 8 * 2 ^ 8 + v = 0x1210) ∧
    (∃ e, (operand 8).value (site 0x1300) = .error e) ∧
    ∃ v, (operand 200).value (site 0x1300) = .ok v ∧ 0x1300 / 2 ^ 200 * 2 ^ 200 + v = 0x1210 := by
  intro operand site
  have hstart : ZoneMap.make 16 0 = .ok (site 0).zones := by decide +kernel
  have hreads (address : Int) (h : 0 ≤ address) (hfits : Number.fits address = true) (size : Nat) :=
    paged_address_reads_back 16 0 _ hstart [] (site address) rfl h hfits .toward 0 (.alone size)
  have hlow := hreads 0x1200 (by decide) (by decide) 8
  have hother := hreads 0x1300 (by decide) (by decide) 8
  have hwide := hreads 0x1300 (by decide) (by decide) 200
  have hv : (operand 8).value (site 0x1200) = .ok 0x10 := by decide +kernel
  have hw : (operand 200).value (site 0x1300) = .ok 0x1210 := by decide +kernel
  obtain ⟨-, hlt, t, ht, hread, -⟩ := hlow.1 _ hv
  cases ht
  obtain ⟨-, -, t, ht, hread', -⟩ := hwide.1 _ hw
  cases ht
  exact ⟨hstart, ⟨_, hv, hlt, hread⟩, hother.2.mpr (.inr ⟨_, rfl, .inr ⟨8, by decide, by decide⟩⟩),
    _, hw, hread'⟩

end Retarget
