import Mathlib.Data.Prod.Lex
import Mathlib.Order.Compare
import Retarget.Symbol.Test

/-!
# Comparisons as relations

A comparison holds of an ordering, and of two things by the ordering of these. In a linear order it
is one of the six relations that it is written as: this is how numbers are compared, and versions by
their three numbers in turn.
-/

namespace Retarget

namespace Comparison

/-- The relation that a comparison stands for. -/
def Relates {α : Type} [LinearOrder α] : Comparison → α → α → Prop
  | eq, a, b => a = b
  | ne, a, b => a ≠ b
  | gt, a, b => a > b
  | ge, a, b => a ≥ b
  | lt, a, b => a < b
  | le, a, b => a ≤ b

theorem holds_compare {α : Type} [LinearOrder α] (op : Comparison) (a b : α) :
    op.holds (compare a b) = true ↔ op.Relates a b := by
  cases op with
  | eq => rw [holds, beq_iff_eq, compare_eq_iff_eq, Relates]
  | ne => rw [holds, bne_iff_ne, ne_eq, compare_eq_iff_eq, Relates]
  | gt => rw [holds, beq_iff_eq, compare_gt_iff_gt, Relates]
  | ge => rw [holds, bne_iff_ne, compare_ge_iff_ge, Relates]
  | lt => rw [holds, beq_iff_eq, compare_lt_iff_lt, Relates]
  | le => rw [holds, bne_iff_ne, compare_le_iff_le, Relates]

instance {α : Type} [LinearOrder α] (op : Comparison) (a b : α) : Decidable (op.Relates a b) :=
  decidable_of_iff _ (op.holds_compare a b)

end Comparison

namespace Version

/-- The numbers of a version, the first ones counting most. -/
def triple (v : Version) : ℕ ×ₗ ℕ ×ₗ ℕ := toLex (v.major, toLex (v.minor, v.patch))

theorem compare_eq (v w : Version) : v.compare w = Ord.compare v.triple w.triple := rfl

end Version

end Retarget
