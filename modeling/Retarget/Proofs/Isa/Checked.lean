import Retarget.Isa.Model
import Retarget.Proofs.Result

/-!
# What a checked configuration guarantees

`Isa.ofSpec` takes its parts from a configuration after checking them. `Isa.checks_of_ofSpec` says
once which parts and which checks these are, and the facts about instruction sets are read off it.
-/

namespace Retarget

namespace Isa

/-- An instruction set with the parts of a configuration, which have passed their checks. -/
structure Checks (spec : IsaSpec) (general : GeneralSpec) (isa : Isa) : Prop where
  sizes : ∃ segment, checkSizes general = .ok segment
  wordSize_eq : isa.wordSize = general.wordSize
  packing_eq : isa.packing = general.packing
  packingFill_eq : isa.packingFill = general.packingFill
  blocks_eq : isa.blocks = spec.predefined.blocks

theorem checks_of_ofSpec {spec : IsaSpec} {other : String} {isa : Isa}
    (h : ofSpec spec other = .ok isa) :
    ∃ general, spec.general = some general ∧ Checks spec general isa := by
  unfold ofSpec at h
  dsimp only at h
  split at h
  · split at h
    · cases h
    · cases h
  · split at h
    · rename_i general hgeneral
      obtain ⟨-, -, h⟩ := bind_eq_ok.mp h
      split at h
      · obtain ⟨⟨segment, hsize⟩, hsizes, h⟩ := bind_eq_ok.mp h
        obtain ⟨version, -, h⟩ := bind_eq_ok.mp h
        obtain ⟨registers, -, h⟩ := bind_eq_ok.mp h
        obtain ⟨-, -, h⟩ := bind_eq_ok.mp h
        obtain ⟨sets, -, h⟩ := bind_eq_ok.mp h
        obtain ⟨instructions, -, h⟩ := bind_eq_ok.mp h
        obtain ⟨-, -, h⟩ := bind_eq_ok.mp h
        cases h
        exact ⟨general, hgeneral, ⟨_, hsizes⟩, rfl, rfl, rfl, rfl⟩
      · cases h
    · cases h

/-- Packed words are made of bytes, at least two. -/
theorem packing_of_ofSpec {spec : IsaSpec} {other : String} {isa : Isa}
    (h : ofSpec spec other = .ok isa) :
    (isa.packing = true → 16 ≤ isa.wordSize ∧ 8 ∣ isa.wordSize) ∧ 0 ≤ isa.packingFill ∧
      isa.packingFill ≤ 255 := by
  obtain ⟨general, -, hchecks⟩ := checks_of_ofSpec h
  obtain ⟨segment, hsizes⟩ := hchecks.sizes
  rw [hchecks.packing_eq, hchecks.wordSize_eq, hchecks.packingFill_eq]
  unfold checkSizes at hsizes
  dsimp only at hsizes
  split at hsizes
  · cases hsizes
  · rename_i hpacking
    split at hsizes
    · cases hsizes
    · rename_i hfill
      simp only [Bool.and_eq_true, Bool.or_eq_true, decide_eq_true_eq, bne_iff_ne] at hpacking hfill
      refine ⟨fun hpacked => ⟨?_, ?_⟩, by omega, by omega⟩
      · exact Nat.le_of_not_lt fun hsize => hpacking ⟨hpacked, .inl hsize⟩
      · exact Nat.dvd_of_mod_eq_zero (Classical.not_not.mp fun hsize => hpacking ⟨hpacked,
          .inr hsize⟩)

end Isa

end Retarget
