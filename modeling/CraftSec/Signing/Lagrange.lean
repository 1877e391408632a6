/-
Lagrange coefficients at zero over participant indices.
-/
import CraftSec.Core.Types
import CraftSec.Lib.Interpolation

namespace CraftSec

/-- The loop of `lagrange_coefficient`: numerator and denominator are
accumulated over the signers other than `i`. -/
def lagrangeFraction (i : ParticipantIndex)
    (signerIndices : List ParticipantIndex) : Scalar × Scalar :=
  signerIndices.foldl
    (fun fraction j =>
      if j = i then fraction
      else (fraction.1 * j.toScalar,
        fraction.2 * (j.toScalar - i.toScalar)))
    ((1 : Scalar), (1 : Scalar))

/-- `lagrange_coefficient` divides once, after the loop. -/
def lagrangeCoefficient (i : ParticipantIndex)
    (signerIndices : List ParticipantIndex) : Scalar :=
  let fraction := lagrangeFraction i signerIndices
  fraction.1 * fraction.2⁻¹

theorem foldl_lagrange (i : ParticipantIndex)
    (signerIndices : List ParticipantIndex) (fraction : Scalar × Scalar) :
    signerIndices.foldl
      (fun fraction j =>
        if j = i then fraction
        else (fraction.1 * j.toScalar,
          fraction.2 * (j.toScalar - i.toScalar))) fraction =
      (fraction.1 * ((signerIndices.filter fun j => j ≠ i).map fun j =>
          j.toScalar).prod,
        fraction.2 * ((signerIndices.filter fun j => j ≠ i).map fun j =>
          j.toScalar - i.toScalar).prod) := by
  induction signerIndices generalizing fraction with
  | nil => simp
  | cons j rest ih =>
      by_cases heq : j = i
      · simp [List.foldl_cons, heq, ih]
      · simp [List.foldl_cons, heq, ih, mul_assoc]

/-- The loop computes the interpolation weight of `i` at zero. -/
theorem lagrangeCoefficient_eq_zeroWeight (i : ParticipantIndex)
    (signerIndices : List ParticipantIndex) :
    lagrangeCoefficient i signerIndices =
      Interpolation.zeroWeight ParticipantIndex.toScalar i signerIndices := by
  simp only [lagrangeCoefficient, lagrangeFraction, foldl_lagrange, one_mul]
  rw [List.prod_inv, List.map_map, ← List.prod_map_mul]
  rfl

/-- The loop never multiplies a zero into the denominator: it skips the index
itself, and other indices stay different as scalars. -/
theorem lagrangeFraction_snd_ne_zero (i : ParticipantIndex)
    (signerIndices : List ParticipantIndex) :
    (lagrangeFraction i signerIndices).2 ≠ 0 := by
  rw [lagrangeFraction, foldl_lagrange]
  simp only [one_mul]
  apply List.prod_ne_zero
  intro hzero
  obtain ⟨j, hj, hdifference⟩ := List.mem_map.mp hzero
  have hne : j ≠ i := by simpa using (List.mem_filter.mp hj).2
  exact hne (ParticipantIndex.toScalar_injective (sub_eq_zero.mp hdifference))

/-- The order of the signers does not matter. -/
theorem lagrangeCoefficient_perm (i : ParticipantIndex)
    {left right : List ParticipantIndex} (hperm : left.Perm right) :
    lagrangeCoefficient i left = lagrangeCoefficient i right := by
  rw [lagrangeCoefficient_eq_zeroWeight, lagrangeCoefficient_eq_zeroWeight,
    Interpolation.zeroWeight, Interpolation.zeroWeight]
  exact ((hperm.filter _).map _).prod_eq

end CraftSec
