/-
What partial signatures made with one nonce pair say about a share.  The
binding factor and the weight of a session are public, so a response is a
masked answer; and sessions that share a binding factor are easily made.
-/
import CraftSec.Lib.MaskedAnswers
import CraftSec.Signing.Binding
import CraftSec.Signing.Session

namespace CraftSec

open MaskedAnswers (Question pairQuestion)

variable {P : Type} [EdwardsGroup P] [Sha512]

/-- What the secret of participant `index` is multiplied by in a session. -/
def signingWeight (index : ParticipantIndex) (groupPublicKey : P)
    (message : Bytes) (commitments : List (SigningCommitment P)) : Scalar :=
  lagrangeCoefficient index (commitments.map SigningCommitment.index) *
    computeChallenge (groupCommitment message commitments) groupPublicKey
      message

/-- A session as a question to a nonce pair and a secret. -/
def signingQuestion (index : ParticipantIndex) (groupPublicKey : P)
    (message : Bytes) (commitments : List (SigningCommitment P)) :
    Question Scalar (Scalar × Scalar) :=
  pairQuestion (bindingFactor index message commitments)
    (signingWeight index groupPublicKey message commitments)

/-- A response is the answer to its session. -/
theorem honestPartial_z (keyShare : KeyShare P) (nonce : SigningNonce)
    (message : Bytes) (commitments : List (SigningCommitment P)) :
    (honestPartial keyShare nonce message commitments).z =
      (signingQuestion keyShare.index keyShare.groupPublicKey message
        commitments).answer (nonce.d, nonce.e) keyShare.secret := by
  simp only [honestPartial, signingQuestion, Question.answer,
    MaskedAnswers.pairQuestion_mask, MaskedAnswers.pairQuestion_weight,
    signingWeight]
  ring

/-- The session in which the first `moved` commitments have become part of the
message. -/
def movedMessage (moved : ℕ) (message : Bytes)
    (commitments : List (SigningCommitment P)) : Bytes :=
  message ++ (commitments.take moved).flatMap SigningCommitment.toBytes

omit [Sha512] in
theorem bindingInput_moved (index : ParticipantIndex) (moved : ℕ)
    (message : Bytes) (commitments : List (SigningCommitment P)) :
    bindingInput index (movedMessage moved message commitments)
        (commitments.drop moved) =
      bindingInput index message commitments := by
  have hsplit : (commitments.take moved).flatMap SigningCommitment.toBytes ++
      (commitments.drop moved).flatMap SigningCommitment.toBytes =
      commitments.flatMap SigningCommitment.toBytes := by
    rw [← List.flatMap_append, List.take_append_drop]
  rw [bindingInput, bindingInput, movedMessage, ← hsplit]
  simp only [List.append_assoc]

/-- A share computed from the responses to a session and to that session with
commitments moved into its message. -/
def extractShare (groupPublicKey : P) (moved : ℕ) (message : Bytes)
    (commitments : List (SigningCommitment P))
    (part again : PartialSignature) : Scalar :=
  (part.z - again.z) *
    (signingWeight part.index groupPublicKey message commitments -
      signingWeight part.index groupPublicKey
        (movedMessage moved message commitments)
        (commitments.drop moved))⁻¹

/-- The two sessions give a share different weights. -/
def WeightsDiffer (groupPublicKey : P) (moved : ℕ) (index : ParticipantIndex)
    (message : Bytes) (commitments : List (SigningCommitment P)) : Prop :=
  signingWeight index groupPublicKey message commitments ≠
    signingWeight index groupPublicKey
      (movedMessage moved message commitments) (commitments.drop moved)

instance (groupPublicKey : P) (moved : ℕ) (index : ParticipantIndex)
    (message : Bytes) (commitments : List (SigningCommitment P)) :
    Decidable (WeightsDiffer groupPublicKey moved index message commitments) :=
  inferInstanceAs (Decidable (_ ≠ _))

/-- Both sessions have one binding factor, so their responses under one nonce
pair give the share away. -/
theorem extractShare_eq_secret (keyShare : KeyShare P) (nonce : SigningNonce)
    (moved : ℕ) (message : Bytes) (commitments : List (SigningCommitment P))
    (hdiffer : WeightsDiffer keyShare.groupPublicKey moved keyShare.index
      message commitments) :
    extractShare keyShare.groupPublicKey moved message commitments
        (honestPartial keyShare nonce message commitments)
        (honestPartial keyShare nonce (movedMessage moved message commitments)
          (commitments.drop moved)) =
      keyShare.secret := by
  have hmask : (signingQuestion keyShare.index keyShare.groupPublicKey message
      commitments).mask =
      (signingQuestion keyShare.index keyShare.groupPublicKey
        (movedMessage moved message commitments)
        (commitments.drop moved)).mask := by
    simp only [signingQuestion, pairQuestion, bindingFactor,
      bindingInput_moved]
  have hdifference := MaskedAnswers.sub_eq_of_same_mask hmask
    (nonce.d, nonce.e) keyShare.secret
  rw [← honestPartial_z, ← honestPartial_z] at hdifference
  have hweight := sub_ne_zero.mpr hdiffer
  rw [extractShare, hdifference, mul_comm, ← mul_assoc]
  exact (congrArg (· * keyShare.secret) (inv_mul_cancel₀ hweight)).trans
    (one_mul _)

/-- A signature made from the secret alone. -/
def forge (groupPublicKey : P) (secret k : Scalar) (message : Bytes) :
    ThresholdSignature P where
  r := basepointMul k
  s := k + computeChallenge (basepointMul k) groupPublicKey message * secret

theorem verify_forge [DecidableEq P] {groupPublicKey : P} {secret : Scalar}
    (hsecret : basepointMul secret = groupPublicKey) (k : Scalar)
    (message : Bytes) :
    verify (forge groupPublicKey secret k message) groupPublicKey message =
      .ok ⟨⟩ := by
  rw [verify_eq_ok_iff, forge]
  dsimp only
  rw [basepointMul_add, mul_comm, ← pointMul_basepointMul, hsecret]

end CraftSec
