/-
End to end: shares from any key lifecycle sign for their group key, and a
rejected aggregate can be blamed on one signer.
-/
import CraftSec.Dkg.Invariant
import CraftSec.Signing.Session

open scoped Polynomial

namespace CraftSec

variable {P : Type} [EdwardsGroup P] [DecidableEq P] [Sha512]

/-- The vectors of key shares that generation or derivation, followed by
rotations with an unchanged threshold, produce. -/
inductive KeyLifecycle (config : ThresholdConfig) :
    List (KeyShare P) → Prop
  | generated {rng rng' : Rng} {shares : List (KeyShare P)}
      (hrun : runDkg config rng = .ok (shares, rng')) :
      KeyLifecycle config shares
  | derived {programCid seed : String} {key : P} {shares : List (KeyShare P)}
      (hderive : deriveKey programCid seed config = .ok (key, shares)) :
      KeyLifecycle config shares
  | rotated {oldShares shares : List (KeyShare P)}
      {newConfig : ThresholdConfig} {rng rng' : Rng}
      (hold : KeyLifecycle config oldShares)
      (hthreshold : newConfig.threshold = config.threshold)
      (hrotate : rotateShares oldShares newConfig rng = .ok (shares, rng')) :
      KeyLifecycle config shares

/-- Whatever the lifecycle was, the shares are a non-empty sharing below the
threshold. -/
theorem KeyLifecycle.exists_isSharing {config : ThresholdConfig}
    (hvalid : config.Valid) {shares : List (KeyShare P)}
    (hshares : KeyLifecycle config shares) :
    ∃ F : Scalar[X], F.degree < config.threshold.toNat ∧
      IsSharing F shares ∧ shares.length = config.total.toNat := by
  induction hshares with
  | generated hrun =>
      rw [runDkg_eq_ok hvalid.1] at hrun
      cases hrun
      refine ⟨_, degree_combined_lt fun poly hpoly => ?_,
        isSharing_shareVector _ config.total.toNat_lt, shareVector_length _ _⟩
      exact dkgPolynomials_length_coefficients hvalid.1 hpoly
  | derived hderive =>
      rw [deriveKey_eq_ok _ _ hvalid.1] at hderive
      cases hderive
      exact ⟨_, degree_derivePolynomial_lt _ _ _,
        isSharing_shareVector _ config.total.toNat_lt, shareVector_length _ _⟩
  | @rotated oldShares shares newConfig rng rng' _ hthreshold hrotate ih =>
      obtain ⟨F, hdegree, hsharing, hlength⟩ := ih
      have hne : oldShares ≠ [] := by
        rw [← List.length_pos_iff, hlength]
        exact lt_of_lt_of_le hvalid.1 hvalid.2
      have ht : 1 ≤ newConfig.threshold.toNat := by
        rw [hthreshold]
        exact hvalid.1
      obtain ⟨F', newShares, rng'', hrotate', hlength', hsharing', _, hsub⟩ :=
        hsharing.rotateShares hne ht rng
      rw [hrotate'] at hrotate
      cases hrotate
      have hdegree' := degree_lt_max_of_sub hdegree hsub
      rw [hthreshold, max_self] at hdegree'
      exact ⟨F', hdegree', hsharing', hlength'.trans hlength⟩

/-- Round 1: every participant generates nonces from its own byte source. -/
def freshSigners (participants : List (KeyShare P × Rng)) : List (Signer P) :=
  participants.map fun participant =>
    ⟨participant.1,
      (generateNonces (P := P) participant.1.index participant.2).1.1⟩

/-- A partial signature passes its check against the entry of `commitments`
and the verification share in `holder` that carry its index. -/
def PartialAccepted (holder : KeyShare P) (message : Bytes)
    (commitments : List (SigningCommitment P)) (part : PartialSignature) :
    Prop :=
  ∃ c ∈ commitments, ∃ point,
    c.index = part.index ∧
    (part.index, point) ∈ holder.verificationShares ∧
    verifyPartial part c point message commitments holder.groupPublicKey =
      .ok ⟨⟩

/-- A partial signature fails that check. -/
def PartialRejected (holder : KeyShare P) (message : Bytes)
    (commitments : List (SigningCommitment P)) (part : PartialSignature) :
    Prop :=
  ∃ c ∈ commitments, ∃ point,
    c.index = part.index ∧
    (part.index, point) ∈ holder.verificationShares ∧
    verifyPartial part c point message commitments holder.groupPublicKey ≠
      .ok ⟨⟩

omit [DecidableEq P] [Sha512] in
/-- The verification share of a member is on everybody's list. -/
theorem IsSharing.mem_verificationShares {F : Scalar[X]}
    {shares : List (KeyShare P)} (hsharing : IsSharing F shares)
    {share holder : KeyShare P} (hshare : share ∈ shares)
    (hholder : holder ∈ shares) :
    (share.index, basepointMul (F.eval share.index.toScalar)) ∈
      holder.verificationShares := by
  obtain ⟨i, hi, rfl⟩ := List.mem_iff_getElem.mp hshare
  have hindex := hsharing.index_eq i hi
  rw [hsharing.verificationShares_eq holder hholder, List.mem_map]
  refine ⟨i + 1, ?_, ?_⟩
  · rw [List.mem_range'_1]
    omega
  · rw [← hindex, UInt32.ofNat_toNat]
    rfl

/-- The check of a partial signature that has a commitment and comes from a
member can be made, and accepts or rejects it. -/
theorem IsSharing.accepted_or_rejected {F : Scalar[X]}
    {shares : List (KeyShare P)} (hsharing : IsSharing F shares)
    {share holder : KeyShare P} (hshare : share ∈ shares)
    (hholder : holder ∈ shares) {commitments : List (SigningCommitment P)}
    {c : SigningCommitment P} (hc : c ∈ commitments)
    {part : PartialSignature} (hindex : c.index = part.index)
    (hown : share.index = part.index) (message : Bytes) :
    PartialAccepted holder message commitments part ∨
      PartialRejected holder message commitments part := by
  have hentry := hsharing.mem_verificationShares hshare hholder
  rw [hown] at hentry
  by_cases hcheck : verifyPartial part c
      (basepointMul (F.eval part.index.toScalar)) message commitments
      holder.groupPublicKey = .ok ⟨⟩
  · exact Or.inl ⟨c, hc, _, hindex, hentry, hcheck⟩
  · exact Or.inr ⟨c, hc, _, hindex, hentry, hcheck⟩

/-- Commitments and responses may come from an adversary: if every partial
signature is accepted the aggregate verifies, so a rejected aggregate exposes
a signer whose partial signature is rejected. -/
theorem identifiable_abort {t : ℕ} {shares : List (KeyShare P)}
    (hwf : WellFormed t shares) {holder : KeyShare P}
    (hholder : holder ∈ shares)
    {commitments : List (SigningCommitment P)}
    (hnodup : (commitments.map SigningCommitment.index).Nodup)
    (hsigners : ∀ c ∈ commitments, ∃ share ∈ shares, share.index = c.index)
    (hcount : t ≤ commitments.length) (message : Bytes)
    {partials : List PartialSignature}
    (hperm : (partials.map PartialSignature.index).Perm
      (commitments.map SigningCommitment.index)) :
    ((∀ part ∈ partials, PartialAccepted holder message commitments part) →
      verify (aggregate message commitments partials) holder.groupPublicKey
        message = .ok ⟨⟩) ∧
    (verify (aggregate message commitments partials) holder.groupPublicKey
        message ≠ .ok ⟨⟩ →
      ∃ part ∈ partials, PartialRejected holder message commitments part) := by
  obtain ⟨F, hdegree, hsharing⟩ := hwf
  have hkey := hsharing.groupPublicKey_eq holder hholder
  have haggregate :
      (∀ part ∈ partials, PartialAccepted holder message commitments part) →
        verify (aggregate message commitments partials) holder.groupPublicKey
          message = .ok ⟨⟩ := by
    intro haccept
    rw [hkey]
    apply verify_aggregate_of_partials hnodup
      (lt_of_lt_of_le hdegree (by exact_mod_cast hcount)) message hperm
    intro part hpart c hc hindex
    obtain ⟨own, hown, point, hownIndex, hentry, hcheck⟩ :=
      haccept part hpart
    have hsame : own = c := by
      apply (List.nodup_map_iff_inj_on hnodup.of_map).mp hnodup _ hown _ hc
      rw [hownIndex, hindex]
    subst hsame
    rwa [hsharing.verificationShare_eq hholder hentry, hkey] at hcheck
  refine ⟨haggregate, fun hreject => ?_⟩
  by_contra hnone
  apply hreject
  apply haggregate
  intro part hpart
  have hindex : part.index ∈ commitments.map SigningCommitment.index :=
    hperm.mem_iff.mp (List.mem_map_of_mem hpart)
  obtain ⟨c, hc, hcindex⟩ := List.mem_map.mp hindex
  obtain ⟨share, hshare, hsindex⟩ := hsigners c hc
  rcases hsharing.accepted_or_rejected hshare hholder hc hcindex
    (hsindex.trans hcindex) message with haccepted | hrejected
  · exact haccepted
  · exact absurd ⟨part, hpart, hrejected⟩ hnone

omit [Sha512] in
/-- Signers 3 and 1 commit to points outside the prime subgroup and answer
zero; one of them is exposed. -/
theorem identifiable_abort_torsion :
    letI := sha512Reference
    let commitments : List (SigningCommitment ReferencePoint) :=
      [⟨3, (5, 1), (7, 0)⟩, ⟨1, (0, 0), (2, 4)⟩]
    let partials : List PartialSignature := [⟨1, 0⟩, ⟨3, 0⟩]
    ∃ part ∈ partials,
      PartialRejected (linearShare 3 3 2) (utf8 "verify partials") commitments
        part := by
  let _ := sha512Reference
  have hholder : linearShare 3 3 2 ∈ linearShares 3 3 :=
    linearShare_mem 3 3 (by decide) (by decide)
  apply (identifiable_abort (wellFormed_linearShares 3 3) hholder ?_ ?_ ?_ _
    ?_).2
  · decide +kernel
  · decide
  · intro c hc
    fin_cases hc
    · exact ⟨_, linearShare_mem 3 3 (i := 3) (by decide) (by decide), rfl⟩
    · exact ⟨_, linearShare_mem 3 3 (i := 1) (by decide) (by decide), rfl⟩
  · decide
  · decide

end CraftSec
