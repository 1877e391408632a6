/-
Signing sessions.  An honest partial signature passes its own check, and
partial signatures that pass their checks aggregate to a signature of the
group, whoever chose the nonce points.
-/
import CraftSec.Dkg.Sharing
import CraftSec.Lib.ThresholdSchnorr
import CraftSec.Signing.Frost

open scoped Polynomial

namespace CraftSec

variable {P : Type} [EdwardsGroup P]

/-- The response submitted for an index. -/
def responseOf (partials : List PartialSignature) (i : ParticipantIndex) :
    Scalar :=
  ((partials.find? fun part => part.index == i).map PartialSignature.z).getD 0

theorem responseOf_eq {partials : List PartialSignature}
    (hnodup : (partials.map PartialSignature.index).Nodup)
    {part : PartialSignature} (hmem : part ∈ partials) :
    responseOf partials part.index = part.z := by
  have hfound : partials.find? (fun other => other.index == part.index) =
      some part := by
    cases hfind : partials.find? (fun other => other.index == part.index) with
    | none =>
        have hnone := List.find?_eq_none.mp hfind part hmem
        simp at hnone
    | some other =>
        have hother := List.mem_of_find?_eq_some hfind
        have hindex := List.find?_some hfind
        have hsame := (List.nodup_map_iff_inj_on hnodup.of_map).mp hnodup
          other hother part hmem (by simpa using hindex)
        rw [hsame]
  rw [responseOf, hfound]
  rfl

/-- One response per signer, in any order, adds up to the responses taken in
the order of the commitments. -/
theorem sum_responseOf {partials : List PartialSignature}
    {indices : List ParticipantIndex} (hnodup : indices.Nodup)
    (hperm : (partials.map PartialSignature.index).Perm indices) :
    (partials.map PartialSignature.z).sum =
      (indices.map (responseOf partials)).sum := by
  have hpartials := hperm.nodup_iff.mpr hnodup
  have hresponses : partials.map PartialSignature.z =
      (partials.map PartialSignature.index).map (responseOf partials) := by
    rw [List.map_map]
    apply List.map_congr_left
    intro part hmem
    exact (responseOf_eq hpartials hmem).symm
  rw [hresponses]
  exact (hperm.map _).sum_eq

variable [Sha512] [DecidableEq P]

/-- When every partial signature passes the check against its own commitment
and its verification share, the aggregate is a signature under the group key.
The commitments' points are arbitrary. -/
theorem verify_aggregate_of_partials {F : Scalar[X]}
    {commitments : List (SigningCommitment P)}
    (hnodup : (commitments.map SigningCommitment.index).Nodup)
    (hdegree : F.degree < commitments.length) (message : Bytes)
    {partials : List PartialSignature}
    (hperm : (partials.map PartialSignature.index).Perm
      (commitments.map SigningCommitment.index))
    (haccept : ∀ part ∈ partials, ∀ c ∈ commitments, c.index = part.index →
      verifyPartial part c (basepointMul (F.eval part.index.toScalar)) message
        commitments (basepointMul (F.eval 0)) = .ok ⟨⟩) :
    verify (aggregate message commitments partials)
      (basepointMul (F.eval 0)) message = .ok ⟨⟩ := by
  rw [verify_eq_ok_iff]
  have hequation : ∀ c ∈ commitments,
      basepointMul (responseOf partials c.index) =
        boundCommitment message commitments c +
          pointMul (basepointMul (F.eval c.index.toScalar))
            (Interpolation.zeroWeight ParticipantIndex.toScalar c.index
                (commitments.map SigningCommitment.index) *
              computeChallenge (groupCommitment message commitments)
                (basepointMul (F.eval 0)) message) := by
    intro c hc
    have hindex : c.index ∈ partials.map PartialSignature.index :=
      hperm.mem_iff.mpr (List.mem_map_of_mem hc)
    obtain ⟨part, hpart, heq⟩ := List.mem_map.mp hindex
    have hcheck := (verifyPartial_eq_ok_iff _ _ _ _ _ _).mp
      (haccept part hpart c hc heq.symm)
    rw [← heq, responseOf_eq (hperm.nodup_iff.mpr hnodup) hpart, hcheck,
      boundCommitment, heq, lagrangeCoefficient_eq_zeroWeight]
  have hsum := ThresholdSchnorr.sum_responses ell_nsmul_basepoint
    ParticipantIndex.toScalar commitments SigningCommitment.index hnodup
    ParticipantIndex.toScalar_injective hdegree
    (computeChallenge (groupCommitment message commitments)
      (basepointMul (F.eval 0)) message)
    (fun c => responseOf partials c.index)
    (boundCommitment message commitments) hequation
  have hresponses := sum_responseOf hnodup hperm
  rw [List.map_map] at hresponses
  simp only [aggregate, hresponses]
  exact hsum

/-- The signature an honest signer releases. -/
def honestPartial (keyShare : KeyShare P) (nonce : SigningNonce)
    (message : Bytes) (commitments : List (SigningCommitment P)) :
    PartialSignature where
  index := keyShare.index
  z := nonce.d + nonce.e * bindingFactor keyShare.index message commitments +
    lagrangeCoefficient keyShare.index
        (commitments.map SigningCommitment.index) * keyShare.secret *
      computeChallenge (groupCommitment message commitments)
        keyShare.groupPublicKey message

omit [DecidableEq P] in
theorem signPartial_eq_ok (keyShare : KeyShare P) (nonce : SigningNonce)
    (message : Bytes) (commitments : List (SigningCommitment P)) :
    signPartial keyShare nonce message commitments =
      .ok (honestPartial keyShare nonce message commitments) := rfl

/-- An honest signer's partial signature passes the check, whatever the other
entries of the list are. -/
theorem verifyPartial_honestPartial (keyShare : KeyShare P)
    (nonce : SigningNonce) (message : Bytes)
    (commitments : List (SigningCommitment P)) :
    verifyPartial (honestPartial keyShare nonce message commitments)
      nonce.commitment (basepointMul keyShare.secret) message commitments
      keyShare.groupPublicKey = .ok ⟨⟩ := by
  rw [verifyPartial_eq_ok_iff]
  simp only [honestPartial, SigningNonce.commitment, pointMul_basepointMul,
    ← basepointMul_add]
  congr 1
  ring

/-- Key shares that cannot be told apart by the partial signatures made with
them.  A zero secret contributes nothing, so its group key does not matter. -/
structure SignsAlike (own other : KeyShare P) : Prop where
  index_eq : own.index = other.index
  secret_eq : own.secret = other.secret
  key_eq : own.secret = 0 ∨ EdwardsGroup.compress own.groupPublicKey =
    EdwardsGroup.compress other.groupPublicKey

omit [DecidableEq P] [Sha512] in
theorem SignsAlike.refl (own : KeyShare P) : SignsAlike own own :=
  ⟨rfl, rfl, Or.inr rfl⟩

omit [DecidableEq P] in
theorem SignsAlike.honestPartial_eq {own other : KeyShare P}
    (halike : SignsAlike own other) (nonce : SigningNonce) (message : Bytes)
    (commitments : List (SigningCommitment P)) :
    honestPartial own nonce message commitments =
      honestPartial other nonce message commitments := by
  obtain ⟨hindex, hsecret, hkey⟩ := halike
  rw [honestPartial, honestPartial, hindex, hsecret]
  rcases hkey with hzero | hkey
  · rw [hsecret] at hzero
    rw [hzero]
    simp
  · rw [computeChallenge, computeChallenge, hkey]

/-- One signer of a session: its key share and the nonce pair it holds. -/
structure Signer (P : Type) where
  keyShare : KeyShare P
  nonce : SigningNonce
deriving DecidableEq

/-- Every signer signs the same list of all commitments and the partial
signatures are aggregated. -/
def signSession (signers : List (Signer P)) (message : Bytes) :
    Outcome (ThresholdSignature P) := do
  let commitments := signers.map fun signer => signer.nonce.commitment
  let partials ← signers.mapM fun signer =>
    signPartial signer.keyShare signer.nonce message commitments
  return aggregate message commitments partials

/-- The signers hold shares of `F` under its group key, and every nonce carries
the index of its share. -/
structure HonestSigners (F : Scalar[X]) (signers : List (Signer P)) : Prop where
  nonce_index : ∀ signer ∈ signers, signer.nonce.index = signer.keyShare.index
  secret_eq : ∀ signer ∈ signers,
    signer.keyShare.secret = F.eval signer.keyShare.index.toScalar
  groupPublicKey_eq : ∀ signer ∈ signers,
    signer.keyShare.groupPublicKey = basepointMul (F.eval 0)

omit [Sha512] [DecidableEq P] in
theorem HonestSigners.map_index {F : Scalar[X]} {signers : List (Signer P)}
    (honest : HonestSigners F signers) :
    (signers.map fun signer => signer.nonce.commitment (P := P)).map
        SigningCommitment.index =
      signers.map fun signer => signer.keyShare.index := by
  rw [List.map_map]
  apply List.map_congr_left
  intro signer hsigner
  exact honest.nonce_index signer hsigner

/-- Distinct honest signers, more than the degree of the shared polynomial,
produce a signature under its group key. -/
theorem HonestSigners.verify_aggregate {F : Scalar[X]}
    {signers : List (Signer P)} (honest : HonestSigners F signers)
    (hnodup : (signers.map fun signer => signer.keyShare.index).Nodup)
    (hdegree : F.degree < signers.length) (message : Bytes) :
    verify
      (aggregate message
        (signers.map fun signer => signer.nonce.commitment)
        (signers.map fun signer =>
          honestPartial signer.keyShare signer.nonce message
            (signers.map fun other => other.nonce.commitment)))
      (basepointMul (F.eval 0) : P) message = .ok ⟨⟩ := by
  have hindices := honest.map_index
  apply verify_aggregate_of_partials
  · rwa [hindices]
  · rwa [List.length_map]
  · rw [hindices, List.map_map]
    exact List.Perm.refl _
  · intro part hpart c hc hindex
    rw [List.mem_map] at hpart hc
    obtain ⟨signer, hsigner, rfl⟩ := hpart
    obtain ⟨other, hother, rfl⟩ := hc
    have hsame : other = signer := by
      apply (List.nodup_map_iff_inj_on hnodup.of_map).mp hnodup _ hother _
        hsigner
      rw [← honest.nonce_index other hother]
      exact hindex
    subst hsame
    have hcheck := verifyPartial_honestPartial other.keyShare other.nonce
      message (signers.map fun signer => signer.nonce.commitment)
    rwa [honest.secret_eq other hother, honest.groupPublicKey_eq other hother]
      at hcheck

omit [DecidableEq P] in
theorem signSession_eq_ok (signers : List (Signer P)) (message : Bytes) :
    signSession signers message =
      .ok (aggregate message
        (signers.map fun signer => signer.nonce.commitment)
        (signers.map fun signer =>
          honestPartial signer.keyShare signer.nonce message
            (signers.map fun other => other.nonce.commitment))) := by
  have hpartials := mapM_eq_ok signers
    (fun signer => signPartial signer.keyShare signer.nonce message
      (signers.map fun other => other.nonce.commitment)) _
    fun signer _ => signPartial_eq_ok _ _ _ _
  rw [signSession, hpartials]
  rfl

end CraftSec
