/-
Reconstruction from shares by interpolation at zero, and what accepted Feldman
shares imply about a dealer who publishes arbitrary commitments.
-/
import CraftSec.Core.Reference
import CraftSec.Dkg.Sharing
import CraftSec.Signing.Lagrange

open scoped Polynomial

namespace CraftSec

open Interpolation (ofCoeffs)

/-- The Lagrange combination at zero of shares given with their indices. -/
def reconstruct (received : List (ParticipantIndex × Scalar)) : Scalar :=
  (received.map fun entry =>
    lagrangeCoefficient entry.1 (received.map Prod.fst) * entry.2).sum

/-- Values of a polynomial of low degree reconstruct its value at zero. -/
theorem reconstruct_eq_eval_zero {F : Scalar[X]}
    {received : List (ParticipantIndex × Scalar)}
    (hnodup : (received.map Prod.fst).Nodup)
    (hdegree : F.degree < received.length)
    (hvalues : ∀ entry ∈ received, entry.2 = F.eval entry.1.toScalar) :
    reconstruct received = F.eval 0 := by
  have hinterpolate := Interpolation.sum_zeroWeight_mul_eval
    ParticipantIndex.toScalar hnodup
    ParticipantIndex.toScalar_injective.injOn
    (by rwa [List.length_map])
  rw [← hinterpolate, List.map_map, reconstruct]
  congr 1
  apply List.map_congr_left
  intro entry hentry
  rw [lagrangeCoefficient_eq_zeroWeight, hvalues entry hentry,
    Function.comp_apply]

/-- The coefficients of any distinct indices reconstruct the constant term of a
polynomial with at most as many coefficients, do not depend on the order of the
indices, and are quotients by something other than zero. -/
theorem lagrange_reconstructs_constant :
    (∀ (signerIndices : List ParticipantIndex) (poly : Polynomial),
      signerIndices.Nodup →
      poly.coefficients.length ≤ signerIndices.length →
      (signerIndices.map fun i =>
        lagrangeCoefficient i signerIndices *
          poly.evaluate i.toScalar).sum = poly.coefficients.headD 0) ∧
    (∀ (i : ParticipantIndex) (left right : List ParticipantIndex),
      left.Perm right →
      lagrangeCoefficient i left = lagrangeCoefficient i right) ∧
    ∀ (i : ParticipantIndex) (signerIndices : List ParticipantIndex),
      lagrangeCoefficient i signerIndices =
          (lagrangeFraction i signerIndices).1 *
            (lagrangeFraction i signerIndices).2⁻¹ ∧
        (lagrangeFraction i signerIndices).2 ≠ 0 := by
  refine ⟨?_, fun i left right hperm => lagrangeCoefficient_perm i hperm,
    fun i signerIndices => ⟨rfl,
      lagrangeFraction_snd_ne_zero i signerIndices⟩⟩
  intro signerIndices poly hnodup hlength
  have hdegree : (ofCoeffs poly.coefficients).degree < signerIndices.length :=
    lt_of_lt_of_le (Interpolation.degree_ofCoeffs_lt _)
      (by exact_mod_cast hlength)
  have hinterpolate := Interpolation.sum_zeroWeight_mul_eval
    ParticipantIndex.toScalar hnodup
    ParticipantIndex.toScalar_injective.injOn hdegree
  simp only [lagrangeCoefficient_eq_zeroWeight, poly.evaluate_eq]
  rw [hinterpolate]
  cases poly.coefficients with
  | nil => simp [ofCoeffs]
  | cons coefficient rest =>
      rw [Interpolation.eval_zero_ofCoeffs_cons, List.headD_cons]

variable {P : Type} [EdwardsGroup P]

/-- A key share as an index with a secret. -/
def KeyShare.entry (share : KeyShare P) : ParticipantIndex × Scalar :=
  (share.index, share.secret)

/-- More shares of a sharing than its degree reconstruct the group secret. -/
theorem IsSharing.reconstruct_eq {F : Scalar[X]} {shares : List (KeyShare P)}
    (hsharing : IsSharing F shares) {chosen : List (KeyShare P)}
    (hmem : ∀ share ∈ chosen, share ∈ shares)
    (hnodup : (chosen.map KeyShare.index).Nodup)
    (hdegree : F.degree < chosen.length) :
    reconstruct (chosen.map KeyShare.entry) = F.eval 0 := by
  apply reconstruct_eq_eval_zero
  · rw [List.map_map]
    exact hnodup
  · rwa [List.length_map]
  · intro entry hentry
    obtain ⟨share, hshare, rfl⟩ := List.mem_map.mp hentry
    exact hsharing.secret_eq_eval (hmem share hshare)

/-- Every commitment vector in the basepoint's subgroup belongs to a
polynomial. -/
theorem exists_polynomial_of_mem_zmultiples {commitments : List P}
    (hsubgroup : ∀ commitment ∈ commitments, commitment ∈
      AddSubgroup.zmultiples (EdwardsGroup.basepoint : P)) :
    ∃ poly : Polynomial, poly.commitments = commitments := by
  induction commitments with
  | nil => exact ⟨⟨[]⟩, rfl⟩
  | cons commitment rest ih =>
      obtain ⟨scalar, hscalar⟩ := mem_zmultiples_basepoint_iff.mp
        (hsubgroup commitment List.mem_cons_self)
      obtain ⟨poly, hpoly⟩ := ih fun other hother =>
        hsubgroup other (List.mem_cons_of_mem commitment hother)
      refine ⟨⟨scalar :: poly.coefficients⟩, ?_⟩
      rw [Polynomial.commitments, List.map_cons, hscalar, ← hpoly]
      rfl

variable [DecidableEq P]

/-- The dealer's shares were accepted by receivers with different indices, as
many as there are commitments. -/
structure Accepted (commitments : List P)
    (received : List (ParticipantIndex × Scalar)) : Prop where
  nodup : (received.map Prod.fst).Nodup
  length_le : commitments.length ≤ received.length
  accepted : ∀ entry ∈ received,
    verifyShare entry.1 entry.2 commitments = .ok ⟨⟩

/-- Accepted shares of a polynomial's commitments reconstruct its constant. -/
theorem Accepted.reconstruct_eq {poly : Polynomial}
    {received : List (ParticipantIndex × Scalar)}
    (haccepted : Accepted (P := P) poly.commitments received) :
    reconstruct received = poly.evaluate 0 := by
  rw [poly.evaluate_eq]
  apply reconstruct_eq_eval_zero haccepted.nodup
  · have hlength := haccepted.length_le
    rw [Polynomial.commitments, List.length_map] at hlength
    exact lt_of_lt_of_le (Interpolation.degree_ofCoeffs_lt _)
      (by exact_mod_cast hlength)
  · intro entry hentry
    rw [← poly.evaluate_eq]
    exact (verifyShare_commitments_eq_ok_iff _ _ _).mp
      (haccepted.accepted entry hentry)

/-- Whatever the dealer commits to in the basepoint's subgroup, accepted shares
reconstruct the secret behind the first commitment, each index has one
acceptable share, and every large enough set reconstructs the same scalar. -/
theorem feldman_sound {commitments : List P} (hne : commitments ≠ [])
    (hsubgroup : ∀ commitment ∈ commitments, commitment ∈
      AddSubgroup.zmultiples (EdwardsGroup.basepoint : P)) :
    (∀ received, Accepted commitments received →
      commitments[0]? = some (basepointMul (reconstruct received))) ∧
    (∀ index share share',
      verifyShare index share commitments = .ok ⟨⟩ →
      verifyShare index share' commitments = .ok ⟨⟩ → share = share') ∧
    (∀ received received', Accepted commitments received →
      Accepted commitments received' →
      reconstruct received = reconstruct received') ∧
    ∀ poly : Polynomial, poly.commitments = commitments →
      ∀ index share, verifyShare index share commitments = .ok ⟨⟩ ↔
        share = poly.evaluate index.toScalar := by
  obtain ⟨poly, rfl⟩ := exists_polynomial_of_mem_zmultiples hsubgroup
  refine ⟨?_, ?_, ?_, ?_⟩
  · intro received haccepted
    rw [haccepted.reconstruct_eq]
    cases hcoefficients : poly.coefficients with
    | nil => exact absurd (by rw [Polynomial.commitments, hcoefficients]; rfl) hne
    | cons coefficient rest =>
        rw [poly.evaluate_eq, Polynomial.commitments, hcoefficients,
          Interpolation.eval_zero_ofCoeffs_cons]
        rfl
  · intro index share share' hshare hshare'
    rw [verifyShare_commitments_eq_ok_iff] at hshare hshare'
    rw [hshare, hshare']
  · intro received received' haccepted haccepted'
    rw [haccepted.reconstruct_eq, haccepted'.reconstruct_eq]
  · intro other hother index share
    rw [← hother]
    exact verifyShare_commitments_eq_ok_iff index share other

omit [EdwardsGroup P] [DecidableEq P] in
/-- Two receivers of `3 + 3 * x` find the secret behind its first
commitment. -/
theorem feldman_sound_two_receivers :
    (Polynomial.commitments (P := ReferencePoint) ⟨[3, 3]⟩)[0]? =
      some (basepointMul (reconstruct [(1, 6), (3, 12)])) := by
  have hsubgroup : ∀ commitment ∈
      Polynomial.commitments (P := ReferencePoint) ⟨[3, 3]⟩, commitment ∈
        AddSubgroup.zmultiples (EdwardsGroup.basepoint : ReferencePoint) := by
    intro commitment hcommitment
    obtain ⟨scalar, -, rfl⟩ := List.mem_map.mp hcommitment
    exact mem_zmultiples_basepoint_iff.mpr ⟨scalar, rfl⟩
  apply (feldman_sound (by simp [Polynomial.commitments]) hsubgroup).1
  refine ⟨by decide, le_refl 2, ?_⟩
  intro entry hentry
  rw [verifyShare_commitments_eq_ok_iff]
  rcases List.mem_pair.mp hentry with rfl | rfl
  · decide +kernel
  · decide +kernel

end CraftSec
