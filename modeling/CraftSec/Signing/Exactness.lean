/-
Exactness of the two verification equations.  One scalar passes the check of a
partial signature, and an aggregate passes exactly as far as the weighted
secrets of its signers add up to the secret of the group.
-/
import CraftSec.Dkg.Invariant
import CraftSec.Signing.Session

open scoped Polynomial

namespace CraftSec

variable {P : Type}

/-- The interpolation at zero of the secrets that a signer list holds. -/
def weightedSecret (signers : List (Signer P)) : Scalar :=
  (signers.map fun signer =>
    lagrangeCoefficient signer.keyShare.index
        (signers.map fun other => other.keyShare.index) *
      signer.keyShare.secret).sum

/-- For signers who hold values of `F` it is the interpolation of `F` from
their indices. -/
theorem weightedSecret_eq {F : Scalar[X]} {signers : List (Signer P)}
    (hsecret : ∀ signer ∈ signers,
      signer.keyShare.secret = F.eval signer.keyShare.index.toScalar) :
    weightedSecret signers =
      ((signers.map fun signer => signer.keyShare.index).map fun i =>
        Interpolation.zeroWeight ParticipantIndex.toScalar i
            (signers.map fun signer => signer.keyShare.index) *
          F.eval i.toScalar).sum := by
  rw [weightedSecret, List.map_map]
  congr 1
  apply List.map_congr_left
  intro signer hsigner
  rw [hsecret signer hsigner, lagrangeCoefficient_eq_zeroWeight]
  rfl

variable [EdwardsGroup P] [Sha512]

/-- The challenge of the signature that a session ends with. -/
def sessionChallenge (signers : List (Signer P)) (publicKey : P)
    (message : Bytes) : Scalar :=
  computeChallenge
    (groupCommitment message
      (signers.map fun signer => signer.nonce.commitment))
    publicKey message

theorem r_of_signSession {signers : List (Signer P)} {message : Bytes}
    {signature : ThresholdSignature P}
    (hsession : signSession signers message = .ok signature) :
    signature.r = groupCommitment message
      (signers.map fun signer => signer.nonce.commitment) := by
  rw [signSession_eq_ok] at hsession
  cases hsession
  rfl

/-- The nonces of a session of `shares`: `scalar` hides the first signer and
zero the others. -/
def firstHides (scalar : Scalar) : List (KeyShare P) → List (Signer P)
  | [] => []
  | first :: rest =>
      ⟨first, ⟨first.index, scalar, 0⟩⟩ ::
        rest.map fun share => ⟨share, ⟨share.index, 0, 0⟩⟩

omit [EdwardsGroup P] [Sha512] in
theorem map_keyShare_firstHides (scalar : Scalar) (shares : List (KeyShare P)) :
    (firstHides scalar shares).map Signer.keyShare = shares := by
  cases shares with
  | nil => rfl
  | cons first rest => simp [firstHides, Function.comp_def]

omit [EdwardsGroup P] [Sha512] in
theorem nonce_firstHides (scalar : Scalar) (shares : List (KeyShare P)) :
    ∀ signer ∈ firstHides scalar shares,
      signer.nonce.index = signer.keyShare.index ∧ signer.nonce.e = 0 := by
  cases shares with
  | nil => simp [firstHides]
  | cons first rest =>
      intro signer hsigner
      rw [firstHides, List.mem_cons, List.mem_map] at hsigner
      rcases hsigner with rfl | ⟨share, -, rfl⟩
      · exact ⟨rfl, rfl⟩
      · exact ⟨rfl, rfl⟩

omit [EdwardsGroup P] [Sha512] in
theorem sum_nonce_firstHides (scalar : Scalar) {shares : List (KeyShare P)}
    (hne : shares ≠ []) :
    ((firstHides scalar shares).map fun signer => signer.nonce.d).sum =
      scalar := by
  cases shares with
  | nil => exact absurd rfl hne
  | cons first rest =>
      have hrest : ∀ d ∈ (rest.map fun share =>
          (⟨share, ⟨share.index, 0, 0⟩⟩ : Signer P)).map
            (fun signer => signer.nonce.d), d = 0 := by
        intro d hd
        rw [List.map_map, List.mem_map] at hd
        obtain ⟨share, -, rfl⟩ := hd
        rfl
      rw [firstHides, List.map_cons, List.sum_cons, List.sum_eq_zero hrest,
        add_zero]

theorem boundCommitment_of_e_eq_zero {nonce : SigningNonce}
    (hzero : nonce.e = 0) (message : Bytes)
    (commitments : List (SigningCommitment P)) :
    boundCommitment message commitments nonce.commitment =
      basepointMul nonce.d := by
  rw [boundCommitment, SigningNonce.commitment, hzero, pointMul_basepointMul,
    zero_mul, basepointMul_zero, add_zero]

/-- With these nonces the group commitment is a chosen point. -/
theorem groupCommitment_firstHides (scalar : Scalar)
    {shares : List (KeyShare P)} (hne : shares ≠ []) (message : Bytes) :
    groupCommitment message
        ((firstHides scalar shares).map fun signer =>
          signer.nonce.commitment (P := P)) = basepointMul scalar := by
  have hbound : groupCommitment message
      ((firstHides scalar shares).map fun signer =>
        signer.nonce.commitment (P := P)) =
      ((firstHides scalar shares).map fun signer =>
        basepointMul signer.nonce.d).sum := by
    rw [groupCommitment, List.map_map]
    congr 1
    apply List.map_congr_left
    intro signer hsigner
    exact boundCommitment_of_e_eq_zero
      (nonce_firstHides scalar shares signer hsigner).2 _ _
  rw [hbound, ← basepointMul_sum, sum_nonce_firstHides scalar hne]

variable [DecidableEq P]

/-- A session in which every nonce carries the index of its share and all
shares carry the group key of `groupSecret` returns a signature.  It is
accepted exactly as far as the signers' secrets interpolate `groupSecret`. -/
theorem signSession_accepted_iff {signers : List (Signer P)}
    (hnonce : ∀ signer ∈ signers,
      signer.nonce.index = signer.keyShare.index)
    {groupSecret : Scalar}
    (hkey : ∀ signer ∈ signers,
      signer.keyShare.groupPublicKey = basepointMul groupSecret)
    (message : Bytes) :
    ∃ signature, signSession signers message = .ok signature ∧
      (verify signature (basepointMul groupSecret : P) message = .ok ⟨⟩ ↔
        sessionChallenge signers (basepointMul groupSecret) message *
          (weightedSecret signers - groupSecret) = 0) := by
  refine ⟨_, signSession_eq_ok signers message, ?_⟩
  let commitments := signers.map fun signer => signer.nonce.commitment (P := P)
  have hindices : commitments.map SigningCommitment.index =
      signers.map fun signer => signer.keyShare.index := by
    rw [List.map_map]
    apply List.map_congr_left
    intro signer hsigner
    exact hnonce signer hsigner
  have hequation : ∀ signer ∈ signers,
      basepointMul (P := P)
          (honestPartial signer.keyShare signer.nonce message commitments).z =
        boundCommitment message commitments signer.nonce.commitment +
          basepointMul (lagrangeCoefficient signer.keyShare.index
                (signers.map fun other => other.keyShare.index) *
              signer.keyShare.secret *
            sessionChallenge signers (basepointMul groupSecret) message) := by
    intro signer hsigner
    have hbinding : bindingFactor (signer.nonce.commitment (P := P)).index
        message commitments =
        bindingFactor signer.keyShare.index message commitments := by
      rw [← hnonce signer hsigner]
      rfl
    rw [honestPartial, basepointMul_add, basepointMul_add, hindices,
      hkey signer hsigner, boundCommitment, hbinding]
    simp only [SigningNonce.commitment, pointMul_basepointMul]
    rfl
  have hiff := ThresholdSchnorr.accepted_iff EdwardsGroup.addOrderOf_basepoint
    signers _ (fun signer => signer.keyShare.secret) _ _ groupSecret _
    hequation
  have hr : groupCommitment message commitments =
      (signers.map fun signer => boundCommitment message commitments
        signer.nonce.commitment).sum := by
    rw [groupCommitment, List.map_map]
    rfl
  rw [← hr] at hiff
  rw [verify_eq_ok_iff]
  simp only [aggregate, List.map_map]
  exact hiff

/-- The check of a partial signature against the signer's own commitment and
verification share accepts the scalar that signing returns and no other. -/
theorem verifyPartial_exact (keyShare : KeyShare P) (nonce : SigningNonce)
    (message : Bytes) (commitments : List (SigningCommitment P))
    (z : Scalar) :
    verifyPartial ⟨keyShare.index, z⟩
        ⟨keyShare.index, basepointMul nonce.d, basepointMul nonce.e⟩
        (basepointMul keyShare.secret) message commitments
        keyShare.groupPublicKey = .ok ⟨⟩ ↔
      signPartial keyShare nonce message commitments =
        .ok ⟨keyShare.index, z⟩ := by
  have haccepted := verifyPartial_honestPartial keyShare nonce message
    commitments
  rw [verifyPartial_eq_ok_iff] at haccepted ⊢
  rw [signPartial_eq_ok]
  constructor
  · intro hcheck
    have hz : basepointMul (P := P) z =
        basepointMul (honestPartial keyShare nonce message commitments).z :=
      hcheck.trans haccepted.symm
    rw [basepointMul_injective hz]
    rfl
  · intro hsigned
    have hpart := Except.ok.inj hsigned
    have hz := congrArg PartialSignature.z hpart
    rw [← show (honestPartial keyShare nonce message commitments).z = z from hz]
    exact haccepted

/-- One holder fewer than the points that fix `F` are rejected, unless the
challenge is zero. -/
theorem IsSharing.too_few_rejected {F : Scalar[X]} {shares : List (KeyShare P)}
    (hsharing : IsSharing F shares) {signers : List (Signer P)}
    (hmem : ∀ signer ∈ signers, signer.keyShare ∈ shares)
    (hnonce : ∀ signer ∈ signers,
      signer.nonce.index = signer.keyShare.index)
    (hnodup : (signers.map fun signer => signer.keyShare.index).Nodup)
    {message : Bytes} {signature : ThresholdSignature P}
    (hsession : signSession signers message = .ok signature)
    (hdegree : F.degree = signers.length)
    (hchallenge : computeChallenge signature.r (basepointMul (F.eval 0))
      message ≠ 0) :
    verify signature (basepointMul (F.eval 0)) message ≠ .ok ⟨⟩ := by
  have hsecret : ∀ signer ∈ signers,
      signer.keyShare.secret = F.eval signer.keyShare.index.toScalar :=
    fun signer hsigner => hsharing.secret_eq_eval (hmem signer hsigner)
  obtain ⟨signature', hsession', hiff⟩ := signSession_accepted_iff hnonce
    (fun signer hsigner =>
      hsharing.groupPublicKey_eq _ (hmem signer hsigner)) message
  rw [hsession] at hsession'
  cases hsession'
  intro haccepted
  have hproduct := hiff.mp haccepted
  rw [sessionChallenge, ← r_of_signSession hsession] at hproduct
  rcases mul_eq_zero.mp hproduct with hzero | hzero
  · exact hchallenge hzero
  · have hinterpolated := sub_eq_zero.mp hzero
    rw [weightedSecret_eq hsecret] at hinterpolated
    apply Interpolation.sum_zeroWeight_mul_eval_ne _ hnodup
      ParticipantIndex.toScalar_injective.injOn ?_ ?_ hinterpolated
    · intro i hi
      obtain ⟨signer, hsigner, rfl⟩ := List.mem_map.mp hi
      exact hsharing.toScalar_ne_zero (hmem signer hsigner)
    · rw [hdegree, List.length_map]

/-- Any number of distinct holders of a sharing of `F` are accepted exactly as
far as their shares interpolate `F(0)`; one holder too few never does, unless
the challenge is zero. -/
theorem below_threshold_rejected {F : Scalar[X]} {shares : List (KeyShare P)}
    (hsharing : IsSharing F shares) {signers : List (Signer P)}
    (hmem : ∀ signer ∈ signers, signer.keyShare ∈ shares)
    (hnonce : ∀ signer ∈ signers,
      signer.nonce.index = signer.keyShare.index)
    (hnodup : (signers.map fun signer => signer.keyShare.index).Nodup)
    (message : Bytes) :
    ∃ signature, signSession signers message = .ok signature ∧
      (verify signature (basepointMul (F.eval 0)) message = .ok ⟨⟩ ↔
        computeChallenge signature.r (basepointMul (F.eval 0)) message *
          ((signers.map fun signer =>
              lagrangeCoefficient signer.keyShare.index
                  (signers.map fun other => other.keyShare.index) *
                F.eval signer.keyShare.index.toScalar).sum -
            F.eval 0) = 0) ∧
      ∀ t, 1 ≤ t → F.degree = (t - 1 : ℕ) → signers.length = t - 1 →
        computeChallenge signature.r (basepointMul (F.eval 0)) message ≠ 0 →
        verify signature (basepointMul (F.eval 0)) message ≠ .ok ⟨⟩ := by
  have hsecret : ∀ signer ∈ signers,
      signer.keyShare.secret = F.eval signer.keyShare.index.toScalar :=
    fun signer hsigner => hsharing.secret_eq_eval (hmem signer hsigner)
  obtain ⟨signature, hsession, hiff⟩ := signSession_accepted_iff hnonce
    (fun signer hsigner =>
      hsharing.groupPublicKey_eq _ (hmem signer hsigner)) message
  have hr := r_of_signSession hsession
  have hweighted : weightedSecret signers =
      (signers.map fun signer =>
        lagrangeCoefficient signer.keyShare.index
            (signers.map fun other => other.keyShare.index) *
          F.eval signer.keyShare.index.toScalar).sum := by
    rw [weightedSecret]
    congr 1
    apply List.map_congr_left
    intro signer hsigner
    rw [hsecret signer hsigner]
  refine ⟨signature, hsession, ?_, ?_⟩
  · rw [hr, ← hweighted]
    exact hiff
  · intro t _ hdegree hlength hchallenge
    exact hsharing.too_few_rejected hmem hnonce hnodup hsession
      (by rw [hdegree, hlength]) hchallenge

omit [EdwardsGroup P] [Sha512] [DecidableEq P] in
/-- One holder of a 2-of-3 sharing is rejected. -/
theorem below_threshold_rejected_one_of_two :
    letI := sha512Reference
    ∃ signature,
      signSession [⟨linearShare 3 3 2, ⟨2, 1, 1⟩⟩] (utf8 "test") =
          .ok signature ∧
        verify signature (basepointMul 3) (utf8 "test") ≠ .ok ⟨⟩ := by
  let _ := sha512Reference
  have hzero : (linearPolynomial 3 3).eval 0 = 3 :=
    eval_zero_linearPolynomial 3 3
  have hdegree : (linearPolynomial 3 3).degree = (2 - 1 : ℕ) := by
    apply Polynomial.degree_linear
    decide +kernel
  have honly : ∀ signer ∈ ([⟨linearShare 3 3 2, ⟨2, 1, 1⟩⟩] :
      List (Signer ReferencePoint)),
      signer.keyShare = linearShare 3 3 2 ∧ signer.nonce.index = 2 := by
    intro signer hsigner
    rw [List.mem_singleton.mp hsigner]
    exact ⟨rfl, rfl⟩
  obtain ⟨signature, hsession, -, hreject⟩ := below_threshold_rejected
    (isSharing_linearShares 3 3)
    (fun signer hsigner => by
      rw [(honly signer hsigner).1]
      exact linearShare_mem 3 3 (i := 2) (by decide) (by decide))
    (fun signer hsigner => by
      rw [(honly signer hsigner).1, (honly signer hsigner).2]
      rfl)
    (by decide) (utf8 "test")
  refine ⟨signature, hsession, ?_⟩
  rw [hzero] at hreject
  apply hreject 2 (by decide) hdegree rfl
  rw [r_of_signSession hsession]
  decide +kernel

end CraftSec
