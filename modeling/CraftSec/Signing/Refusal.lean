/-
Signing on commitment lists that a coordinator makes up.  Nothing in the list
is checked, so a scalar computed from the secret share is released for every
list.
-/
import CraftSec.Dkg.Invariant
import CraftSec.Signing.Session

namespace CraftSec

variable {P : Type} [EdwardsGroup P]

/-- A commitment list that a signer can sign on: distinct non-zero indices, and
the signer's own commitment among them. -/
structure SoundCommitments (keyShare : KeyShare P) (nonce : SigningNonce)
    (commitments : List (SigningCommitment P)) : Prop where
  nodup : (commitments.map SigningCommitment.index).Nodup
  index_ne_zero : ∀ c ∈ commitments, c.index ≠ 0
  nonce_index : nonce.index = keyShare.index
  own_mem : ⟨keyShare.index, basepointMul nonce.d, basepointMul nonce.e⟩ ∈
    commitments

section Weights

/-- An own index that is missing from the list weighs as if it were there. -/
theorem lagrangeCoefficient_cons_self (i : ParticipantIndex)
    (signerIndices : List ParticipantIndex) :
    lagrangeCoefficient i (i :: signerIndices) =
      lagrangeCoefficient i signerIndices := by
  rw [lagrangeCoefficient_eq_zeroWeight, lagrangeCoefficient_eq_zeroWeight,
    Interpolation.zeroWeight, Interpolation.zeroWeight,
    List.filter_cons_of_neg (by simp)]

/-- An index of another signer is multiplied in once for each time it is
listed. -/
theorem lagrangeCoefficient_cons_of_ne {i j : ParticipantIndex} (hne : j ≠ i)
    (signerIndices : List ParticipantIndex) :
    lagrangeCoefficient i (j :: signerIndices) =
      j.toScalar / (j.toScalar - i.toScalar) *
        lagrangeCoefficient i signerIndices := by
  rw [lagrangeCoefficient_eq_zeroWeight, lagrangeCoefficient_eq_zeroWeight,
    Interpolation.zeroWeight, Interpolation.zeroWeight,
    List.filter_cons_of_pos (by simpa using hne), List.map_cons,
    List.prod_cons]

/-- The weight vanishes exactly when another signer is listed with index
zero. -/
theorem lagrangeCoefficient_eq_zero_iff (i : ParticipantIndex)
    (signerIndices : List ParticipantIndex) :
    lagrangeCoefficient i signerIndices = 0 ↔ i ≠ 0 ∧ 0 ∈ signerIndices := by
  have hzero : ∀ j : ParticipantIndex, j.toScalar = 0 ↔ j = 0 := by
    intro j
    rw [← ParticipantIndex.toScalar_injective.eq_iff]
    simp [ParticipantIndex.toScalar]
  induction signerIndices with
  | nil => simp [lagrangeCoefficient, lagrangeFraction]
  | cons j rest ih =>
      have htail : lagrangeCoefficient i rest = 0 ↔ i ≠ 0 ∧ 0 ∈ rest := ih
      by_cases hsame : j = i
      · rw [hsame, lagrangeCoefficient_cons_self, htail, List.mem_cons]
        constructor
        · rintro ⟨hi, hmem⟩
          exact ⟨hi, Or.inr hmem⟩
        · rintro ⟨hi, hmem⟩
          exact ⟨hi, hmem.resolve_left (Ne.symm hi)⟩
      · have hdifference : j.toScalar - i.toScalar ≠ 0 := by
          rw [Ne, sub_eq_zero, ParticipantIndex.toScalar_injective.eq_iff]
          exact hsame
        rw [lagrangeCoefficient_cons_of_ne hsame, mul_eq_zero, div_eq_zero_iff,
          htail, hzero, List.mem_cons]
        constructor
        · rintro ((hj | hj) | ⟨hi, hmem⟩)
          · exact ⟨fun hi => hsame (hj.trans hi.symm), Or.inl hj.symm⟩
          · exact absurd hj hdifference
          · exact ⟨hi, Or.inr hmem⟩
        · rintro ⟨hi, hj | hmem⟩
          · exact Or.inl (Or.inl hj.symm)
          · exact Or.inr ⟨hi, hmem⟩

end Weights

variable [Sha512]

/-- Signing succeeds on sound lists only, and otherwise returns an error. -/
def RefusesUnsound (keyShare : KeyShare P) (nonce : SigningNonce)
    (message : Bytes) (commitments : List (SigningCommitment P)) : Prop :=
  (∀ part, signPartial keyShare nonce message commitments = .ok part →
    SoundCommitments keyShare nonce commitments) ∧
  (¬ SoundCommitments keyShare nonce commitments →
    ∃ error, signPartial keyShare nonce message commitments =
      Outcome.err error)

/-- Signing refuses what it should exactly when there is nothing to refuse.
On every list a scalar is released, and it is the same for two secrets exactly
when the challenge is zero or another signer is listed with index zero. -/
theorem refuses_unsound_iff (keyShare : KeyShare P) (nonce : SigningNonce)
    (message : Bytes) (commitments : List (SigningCommitment P)) :
    (RefusesUnsound keyShare nonce message commitments ↔
      SoundCommitments keyShare nonce commitments) ∧
    (∃ part, signPartial keyShare nonce message commitments = .ok part) ∧
    ∀ secret, secret ≠ keyShare.secret →
      (signPartial { keyShare with secret } nonce message commitments =
          signPartial keyShare nonce message commitments ↔
        computeChallenge (groupCommitment message commitments)
            keyShare.groupPublicKey message = 0 ∨
          keyShare.index ≠ 0 ∧
            0 ∈ commitments.map SigningCommitment.index) := by
  have hok := signPartial_eq_ok keyShare nonce message commitments
  refine ⟨⟨?_, ?_⟩, ⟨_, hok⟩, ?_⟩
  · rintro ⟨hsound, -⟩
    exact hsound _ hok
  · intro hsound
    exact ⟨fun _ _ => hsound, fun hunsound => absurd hsound hunsound⟩
  · intro secret hsecret
    rw [hok, signPartial_eq_ok, ← lagrangeCoefficient_eq_zero_iff]
    simp only [honestPartial, Except.ok.injEq, PartialSignature.mk.injEq,
      true_and, add_right_inj]
    rw [← sub_eq_zero, ← sub_mul, ← mul_sub, mul_eq_zero, mul_eq_zero,
      sub_eq_zero (a := secret), or_iff_left hsecret, or_comm]

/-- Lists for participant 1 with the nonce pair `(1, 1)`: without its entry, with
its entry altered, with another entry repeated, and with an index zero. -/
def unsoundLists : List (List (SigningCommitment ReferencePoint)) :=
  let own : SigningCommitment ReferencePoint :=
    (⟨1, 1, 1⟩ : SigningNonce).commitment
  let other : SigningCommitment ReferencePoint :=
    (⟨2, 1, 1⟩ : SigningNonce).commitment
  [[other], [{ own with binding := 0 }, other], [own, other, other],
    [own, { other with index := 0 }]]

omit [EdwardsGroup P] [Sha512] in
/-- All four are signed, and the scalar released without the own entry differs
for different secrets. -/
theorem sign_accepts_unsound_lists :
    letI := sha512Reference
    unsoundLists.length = 4 ∧
      (∀ commitments ∈ unsoundLists,
        ¬ SoundCommitments (linearShare 3 3 1) ⟨1, 1, 1⟩ commitments ∧
          ∃ part, signPartial (linearShare 3 3 1) ⟨1, 1, 1⟩ (utf8 "test")
            commitments = .ok part) ∧
      signPartial { linearShare 3 3 1 with secret := 7 } ⟨1, 1, 1⟩
          (utf8 "test") [(⟨2, 1, 1⟩ : SigningNonce).commitment] ≠
        signPartial (linearShare 3 3 1) ⟨1, 1, 1⟩ (utf8 "test")
          [(⟨2, 1, 1⟩ : SigningNonce).commitment] := by
  let _ := sha512Reference
  refine ⟨rfl, ?_, by decide +kernel⟩
  intro commitments hlist
  refine ⟨?_, _, signPartial_eq_ok _ _ _ _⟩
  rintro ⟨hnodup, hnonzero, -, hown⟩
  simp only [unsoundLists, List.mem_cons, List.not_mem_nil, or_false] at hlist
  rcases hlist with rfl | rfl | rfl | rfl
  · revert hown
    decide +kernel
  · revert hown
    decide +kernel
  · revert hnodup
    decide
  · exact hnonzero _ (List.mem_cons_of_mem _ List.mem_cons_self) rfl

end CraftSec
