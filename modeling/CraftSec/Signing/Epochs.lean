/-
Signing across a rotation.  The new shares are a sharing of the old polynomial
plus the zero polynomials, so a session that mixes shares of both epochs is off
by the zero polynomials at the old signers, and lowering the threshold has no
effect.
-/
import CraftSec.Signing.Exactness

open scoped Polynomial

namespace CraftSec

variable {P : Type} [EdwardsGroup P]

section MixedEpochs

/-- The indices of a signer list. -/
def signerIndices (signers : List (Signer P)) : List ParticipantIndex :=
  signers.map fun signer => signer.keyShare.index

/-- What a session misses when the participants in `old` sign with shares from
before `delta` was added. -/
noncomputable def missingDelta (delta : Scalar[X])
    (old : Finset ParticipantIndex) (indices : List ParticipantIndex) :
    Scalar :=
  ((indices.filter (· ∈ old)).map fun i =>
    lagrangeCoefficient i indices * delta.eval i.toScalar).sum

theorem missingDelta_of_none {delta : Scalar[X]}
    {old : Finset ParticipantIndex} {indices : List ParticipantIndex}
    (hnone : ∀ i ∈ indices, i ∉ old) : missingDelta delta old indices = 0 := by
  have hempty : indices.filter (· ∈ old) = [] := by
    rw [List.filter_eq_nil_iff]
    intro i hi
    simpa using hnone i hi
  simp [missingDelta, hempty]

/-- Enough signers miss nothing when all of them sign with old shares. -/
theorem missingDelta_of_all {delta : Scalar[X]} (hzero : delta.eval 0 = 0)
    {old : Finset ParticipantIndex} {indices : List ParticipantIndex}
    (hnodup : indices.Nodup) (hdegree : delta.degree < indices.length)
    (hall : ∀ i ∈ indices, i ∈ old) : missingDelta delta old indices = 0 := by
  have hfull : indices.filter (· ∈ old) = indices := by
    rw [List.filter_eq_self]
    intro i hi
    simpa using hall i hi
  rw [missingDelta, hfull, ← hzero]
  simp only [lagrangeCoefficient_eq_zeroWeight]
  exact Interpolation.sum_zeroWeight_mul_eval _ hnodup
    ParticipantIndex.toScalar_injective.injOn hdegree

/-- A single old signer is missed unless a linear `delta` vanishes. -/
theorem missingDelta_of_single {delta : Scalar[X]} (hzero : delta.eval 0 = 0)
    (hdegree : delta.degree < (2 : ℕ)) (hleading : delta.leadingCoeff ≠ 0)
    {old : Finset ParticipantIndex} {indices : List ParticipantIndex}
    (hne : ∀ i ∈ indices, i.toScalar ≠ 0)
    (hsingle : (indices.filter (· ∈ old)).length = 1) :
    missingDelta delta old indices ≠ 0 := by
  obtain ⟨i, hi⟩ := List.length_eq_one_iff.mp hsingle
  have hmem : i ∈ indices := by
    apply List.mem_of_mem_filter
    rw [hi]
    exact List.mem_singleton_self i
  have hlinear : delta = Polynomial.C (delta.coeff 1) * Polynomial.X := by
    have hnatDegree : delta.natDegree < 2 :=
      (Polynomial.natDegree_lt_iff_degree_lt
        (Polynomial.leadingCoeff_ne_zero.mp hleading)).mpr hdegree
    have hline := Polynomial.eq_X_add_C_of_natDegree_le_one
      (Nat.le_of_lt_succ hnatDegree)
    rw [← Polynomial.coeff_zero_eq_eval_zero] at hzero
    rwa [hzero, Polynomial.C_0, add_zero] at hline
  have hcoeff : delta.coeff 1 ≠ 0 := by
    intro hvanish
    rw [hvanish, Polynomial.C_0, zero_mul] at hlinear
    exact hleading (by rw [hlinear, Polynomial.leadingCoeff_zero])
  have hweight : lagrangeCoefficient i indices ≠ 0 := by
    rw [lagrangeCoefficient_eq_zeroWeight]
    apply Interpolation.zeroWeight_ne_zero _ hne
    intro j _ heq
    exact ParticipantIndex.toScalar_injective heq
  rw [missingDelta, hi, List.map_singleton, List.sum_singleton, hlinear,
    Polynomial.eval_mul, Polynomial.eval_C, Polynomial.eval_X]
  exact mul_ne_zero hweight (mul_ne_zero hcoeff (hne i hmem))

variable [DecidableEq P]

/-- Signers of a rotated key, of whom those in `old` kept their old shares. -/
structure MixedSigners (F delta : Scalar[X]) (old : Finset ParticipantIndex)
    (signers : List (Signer P)) : Prop where
  groupPublicKey_eq : ∀ signer ∈ signers,
    signer.keyShare.groupPublicKey = basepointMul (F.eval 0)
  index_ne_zero : ∀ i ∈ signerIndices signers, i.toScalar ≠ 0
  secret_eq : ∀ signer ∈ signers, signer.keyShare.secret =
    if signer.keyShare.index ∈ old
    then F.eval signer.keyShare.index.toScalar
    else (F + delta).eval signer.keyShare.index.toScalar

omit [DecidableEq P] in
theorem IsSharing.mixedSigners {F delta : Scalar[X]}
    {oldShares newShares : List (KeyShare P)}
    (hold : IsSharing F oldShares) (hnew : IsSharing (F + delta) newShares)
    (hzero : delta.eval 0 = 0) {signers : List (Signer P)}
    {old : Finset ParticipantIndex}
    (hmem : ∀ signer ∈ signers, signer.keyShare ∈
      if signer.keyShare.index ∈ old then oldShares else newShares) :
    MixedSigners F delta old signers := by
  have hkey : (F + delta).eval 0 = F.eval 0 := by
    rw [Polynomial.eval_add, hzero, add_zero]
  constructor
  · intro signer hsigner
    have hown := hmem signer hsigner
    split at hown
    · exact hold.groupPublicKey_eq _ hown
    · rw [← hkey]
      exact hnew.groupPublicKey_eq _ hown
  · intro i hi
    obtain ⟨signer, hsigner, rfl⟩ := List.mem_map.mp hi
    have hown := hmem signer hsigner
    split at hown
    · exact hold.toScalar_ne_zero hown
    · exact hnew.toScalar_ne_zero hown
  · intro signer hsigner
    have hown := hmem signer hsigner
    split at hown
    next hindex =>
      rw [if_pos hindex]
      exact hold.secret_eq_eval hown
    next hindex =>
      rw [if_neg hindex]
      exact hnew.secret_eq_eval hown

omit [DecidableEq P] in
/-- A mixed session is off by the missing part of `delta`. -/
theorem MixedSigners.weightedSecret_sub {F delta : Scalar[X]}
    {old : Finset ParticipantIndex} {signers : List (Signer P)}
    (mixed : MixedSigners F delta old signers) (hzero : delta.eval 0 = 0)
    (hnodup : (signerIndices signers).Nodup)
    (hdegree : (F + delta).degree < signers.length) :
    weightedSecret signers - F.eval 0 =
      - missingDelta delta old (signerIndices signers) := by
  have hlength : (F + delta).degree < (signerIndices signers).length := by
    rwa [signerIndices, List.length_map]
  have hmixed := Interpolation.sum_zeroWeight_mul_mixed
    ParticipantIndex.toScalar hnodup
    ParticipantIndex.toScalar_injective.injOn F hlength (· ∈ old)
  rw [add_sub_cancel_left, Polynomial.eval_add, hzero, add_zero] at hmixed
  simp only [← lagrangeCoefficient_eq_zeroWeight] at hmixed
  have hweighted : weightedSecret signers =
      ((signerIndices signers).map fun i =>
        lagrangeCoefficient i (signerIndices signers) *
          if i ∈ old then F.eval i.toScalar
          else (F + delta).eval i.toScalar).sum := by
    rw [weightedSecret, signerIndices, List.map_map]
    congr 1
    apply List.map_congr_left
    intro signer hsigner
    rw [mixed.secret_eq signer hsigner]
    rfl
  rw [hweighted, hmixed, sub_sub_cancel_left]
  rfl

variable [Sha512]

/-- Every split of the signers into holders of old and of new shares is
accepted exactly as far as the zero polynomials interpolate to zero over the
holders of old ones. -/
theorem mixed_epochs_accepted_iff {F : Scalar[X]}
    {oldShares newShares : List (KeyShare P)} {newConfig : ThresholdConfig}
    {rng rng' : Rng} (hsharing : IsSharing F oldShares)
    (ht : 1 ≤ newConfig.threshold.toNat)
    (hdegree : F.degree < newConfig.threshold.toNat)
    (hrotate : rotateShares oldShares newConfig rng = .ok (newShares, rng'))
    {share : KeyShare P} (hshare : share ∈ oldShares)
    {signers : List (Signer P)} (old : Finset ParticipantIndex)
    (hmem : ∀ signer ∈ signers, signer.keyShare ∈
      if signer.keyShare.index ∈ old then oldShares else newShares)
    (hnonce : ∀ signer ∈ signers,
      signer.nonce.index = signer.keyShare.index)
    (hnodup : (signerIndices signers).Nodup)
    (hcount : newConfig.threshold.toNat ≤ signers.length) (message : Bytes) :
    let indices := signerIndices signers
    let delta := rotationDelta oldShares.length newConfig rng
    ∃ signature, signSession signers message = .ok signature ∧
      (verify signature share.groupPublicKey message = .ok ⟨⟩ ↔
        computeChallenge signature.r share.groupPublicKey message *
          ((indices.filter (· ∈ old)).map fun i =>
            lagrangeCoefficient i indices * delta.eval i.toScalar).sum = 0) ∧
      ((∀ i ∈ indices, i ∉ old) ∨ (∀ i ∈ indices, i ∈ old) →
        verify signature share.groupPublicKey message = .ok ⟨⟩) ∧
      (newConfig.threshold = 2 → signers.length = 2 →
        (indices.filter (· ∈ old)).length = 1 →
        computeChallenge signature.r share.groupPublicKey message ≠ 0 →
        delta.leadingCoeff ≠ 0 →
        verify signature share.groupPublicKey message ≠ .ok ⟨⟩) := by
  intro indices delta
  rw [hsharing.rotateShares_eq_ok (List.ne_nil_of_mem hshare) ht] at hrotate
  cases hrotate
  have hzero : delta.eval 0 = 0 := eval_zero_rotationDelta _ _ _
  have hdelta : delta.degree < newConfig.threshold.toNat :=
    degree_rotationDelta_lt _ ht rng
  have hlength : indices.length = signers.length := List.length_map _
  have hsum : (F + delta).degree < signers.length := by
    have hmax := lt_of_le_of_lt (Polynomial.degree_add_le F delta)
      (max_lt hdegree hdelta)
    exact lt_of_lt_of_le hmax (by exact_mod_cast hcount)
  have hmixed := hsharing.mixedSigners
    (isSharing_shareVector (F + delta) hsharing.length_lt) hzero hmem
  obtain ⟨signature, hsession, hiff⟩ :=
    signSession_accepted_iff hnonce hmixed.groupPublicKey_eq message
  have haccepted : verify signature share.groupPublicKey message = .ok ⟨⟩ ↔
      computeChallenge signature.r share.groupPublicKey message *
        missingDelta delta old indices = 0 := by
    rw [hsharing.groupPublicKey_eq share hshare, hiff,
      hmixed.weightedSecret_sub hzero hnodup hsum, mul_neg, neg_eq_zero,
      r_of_signSession hsession]
    rfl
  refine ⟨signature, hsession, haccepted, ?_, ?_⟩
  · intro hpure
    apply haccepted.mpr
    rcases hpure with hnone | hall
    · rw [missingDelta_of_none hnone, mul_zero]
    · rw [missingDelta_of_all hzero hnodup ?_ hall, mul_zero]
      rw [hlength]
      exact lt_of_lt_of_le hdelta (by exact_mod_cast hcount)
  · intro htwo _ hsingle hchallenge hleading hok
    rw [htwo] at hdelta
    have hmissing := missingDelta_of_single hzero hdelta hleading
      hmixed.index_ne_zero hsingle
    exact mul_ne_zero hchallenge hmissing (haccepted.mp hok)

omit [EdwardsGroup P] [DecidableEq P] [Sha512] in
/-- Three zero polynomials `x` turn the shares of `3 + 3 * x` into shares of
`3 + 6 * x`. -/
theorem rotateShares_linearShares :
    ∃ rng', rotateShares (linearShares 3 3) ⟨2, 3⟩ unitRng =
      .ok (linearShares 3 6, rng') := by
  apply exists_rng_of_shares
  decide +kernel

omit [EdwardsGroup P] [DecidableEq P] [Sha512] in
/-- Participant 1 kept its share of `3 + 3 * x`, participant 2 rotated. -/
theorem mixed_epochs_rejected_one_old :
    letI := sha512Reference
    ∃ signature,
      signSession
          [⟨linearShare 3 3 1, ⟨1, 1, 1⟩⟩, ⟨linearShare 3 6 2, ⟨2, 1, 1⟩⟩]
          (utf8 "epoch test") = .ok signature ∧
        verify signature (linearShare 3 3 3).groupPublicKey
          (utf8 "epoch test") ≠ .ok ⟨⟩ := by
  let _ := sha512Reference
  obtain ⟨rng', hrotate⟩ := rotateShares_linearShares
  let signers : List (Signer ReferencePoint) :=
    [⟨linearShare 3 3 1, ⟨1, 1, 1⟩⟩, ⟨linearShare 3 6 2, ⟨2, 1, 1⟩⟩]
  have hmem : ∀ signer ∈ signers, signer.keyShare ∈
      if signer.keyShare.index ∈ ({1} : Finset ParticipantIndex)
      then linearShares 3 3 else linearShares 3 6 := by
    intro signer hsigner
    rcases List.mem_pair.mp hsigner with rfl | rfl
    · exact linearShare_mem 3 3 (i := 1) (by decide) (by decide)
    · exact linearShare_mem 3 6 (i := 2) (by decide) (by decide)
  have hnonce : ∀ signer ∈ signers,
      signer.nonce.index = signer.keyShare.index := by
    intro signer hsigner
    rcases List.mem_pair.mp hsigner with rfl | rfl
    · rfl
    · rfl
  obtain ⟨signature, hsession, -, -, hreject⟩ := mixed_epochs_accepted_iff
    (isSharing_linearShares 3 3) (by decide)
    (by exact degree_linearPolynomial_lt 3 3) hrotate
    (linearShare_mem 3 3 (i := 3) (by decide) (by decide)) {1} hmem hnonce
    (by decide) (by decide) (utf8 "epoch test")
  refine ⟨signature, hsession, hreject rfl rfl (by decide) ?_ ?_⟩
  · rw [r_of_signSession hsession]
    decide +kernel
  · intro hzero
    rw [Polynomial.leadingCoeff_eq_zero] at hzero
    have heval := congrArg (Polynomial.eval 1) hzero
    rw [rotationDelta, eval_combined, Polynomial.eval_zero] at heval
    revert heval
    decide +kernel

end MixedEpochs

section NewThreshold

variable [DecidableEq P]

/-- Rotation either refuses, or the configuration counts the shares and any
`threshold` distinct holders of new shares sign for the unchanged key, whatever
the hash function is. -/
def InstallsThreshold (shares : List (KeyShare P))
    (newConfig : ThresholdConfig) (rng : Rng) : Prop :=
  (∃ error, rotateShares shares newConfig rng = Outcome.err error) ∨
  (newConfig.total.toNat = shares.length ∧
    ∃ newShares rng',
      rotateShares shares newConfig rng = .ok (newShares, rng') ∧
      newShares.length = shares.length ∧
      newConfig.threshold.toNat ≤ newShares.length ∧
      (∀ key, HasGroupKey key shares → HasGroupKey key newShares) ∧
      ∀ [Sha512] (signers : List (Signer P)) (message : Bytes),
        (∀ signer ∈ signers, signer.keyShare ∈ newShares) →
        (∀ signer ∈ signers, signer.nonce.index = signer.keyShare.index) →
        (signerIndices signers).Nodup →
        signers.length = newConfig.threshold.toNat →
        ∃ signature, signSession signers message = .ok signature ∧
          ∀ share ∈ shares,
            verify signature share.groupPublicKey message = .ok ⟨⟩)

/-- Below the degree nothing is lost: holders of a sharing of `F` sign for its
key. -/
theorem IsSharing.signs {F : Scalar[X]} [Sha512] {shares : List (KeyShare P)}
    (hsharing : IsSharing F shares) {signers : List (Signer P)}
    (hmem : ∀ signer ∈ signers, signer.keyShare ∈ shares)
    (hnonce : ∀ signer ∈ signers,
      signer.nonce.index = signer.keyShare.index)
    (hnodup : (signerIndices signers).Nodup)
    (hdegree : F.degree < signers.length) (message : Bytes) :
    ∃ signature, signSession signers message = .ok signature ∧
      verify signature (basepointMul (F.eval 0) : P) message = .ok ⟨⟩ := by
  refine ⟨_, signSession_eq_ok _ _, ?_⟩
  apply HonestSigners.verify_aggregate _ hnodup hdegree
  constructor
  · exact hnonce
  · exact fun signer hsigner => hsharing.secret_eq_eval (hmem signer hsigner)
  · exact fun signer hsigner =>
      hsharing.groupPublicKey_eq _ (hmem signer hsigner)

/-- The participants of a table of `n` shares. -/
def participants (n : ℕ) : List ParticipantIndex :=
  (List.range' 1 n).map UInt32.ofNat

theorem length_participants (n : ℕ) : (participants n).length = n := by
  simp [participants]

theorem nodup_participants {n : ℕ} (hn : n < 2 ^ 32) :
    (participants n).Nodup := by
  apply List.Nodup.map_on _ List.nodup_range'
  intro i hi j hj heq
  rw [List.mem_range'_1] at hi hj
  have hnat := congrArg UInt32.toNat heq
  rwa [toNat_ofNat_of_lt (by omega), toNat_ofNat_of_lt (by omega)] at hnat

omit [DecidableEq P] in
/-- A participant's share is in the table, under its own index. -/
theorem shareAt_of_mem_participants (F : Scalar[X]) {n : ℕ} (hn : n < 2 ^ 32)
    {i : ParticipantIndex} (hi : i ∈ participants n) :
    shareAt (P := P) F n i.toNat ∈ shareVector F n ∧
      (shareAt (P := P) F n i.toNat).index = i := by
  obtain ⟨k, hk, rfl⟩ := List.mem_map.mp hi
  rw [List.mem_range'_1] at hk
  rw [toNat_ofNat_of_lt (by omega)]
  refine ⟨List.mem_map_of_mem ?_, rfl⟩
  rw [List.mem_range'_1]
  omega

omit [DecidableEq P] in
theorem map_index_shareAt {F : Scalar[X]} {n : ℕ} (hn : n < 2 ^ 32)
    {nodes : List ParticipantIndex} (hnodes : nodes ⊆ participants n) :
    (nodes.map fun i => shareAt (P := P) F n i.toNat).map KeyShare.index =
      nodes := by
  calc (nodes.map fun i => shareAt (P := P) F n i.toNat).map KeyShare.index
      = nodes.map id := by
        rw [List.map_map]
        apply List.map_congr_left
        intro i hi
        exact (shareAt_of_mem_participants (P := P) F hn (hnodes hi)).2
    _ = nodes := List.map_id nodes

theorem toScalar_ne_zero_of_mem_participants {n : ℕ} (hn : n < 2 ^ 32)
    {i : ParticipantIndex} (hi : i ∈ participants n) : i.toScalar ≠ 0 := by
  obtain ⟨k, hk, rfl⟩ := List.mem_map.mp hi
  rw [List.mem_range'_1] at hk
  intro hzero
  have hindex : UInt32.ofNat k = 0 := ParticipantIndex.toScalar_injective
    (hzero.trans Nat.cast_zero.symm)
  have hnat := congrArg UInt32.toNat hindex
  rw [toNat_ofNat_of_lt (by omega), UInt32.toNat_zero] at hnat
  omega

/-- The participants as signers, with `r` hiding the first. -/
noncomputable def participantSigners (F : Scalar[X]) (n : ℕ) (r : Scalar)
    (nodes : List ParticipantIndex) : List (Signer P) :=
  firstHides r (nodes.map fun i => shareAt F n i.toNat)

omit [DecidableEq P] in
theorem mem_participantSigners {F : Scalar[X]} {n : ℕ} (hn : n < 2 ^ 32)
    (r : Scalar) {nodes : List ParticipantIndex}
    (hnodes : nodes ⊆ participants n) {signer : Signer P}
    (hsigner : signer ∈ participantSigners F n r nodes) :
    signer.keyShare ∈ shareVector F n ∧
      signer.nonce.index = signer.keyShare.index := by
  refine ⟨?_, (nonce_firstHides r _ signer hsigner).1⟩
  have hshare := List.mem_map_of_mem (f := Signer.keyShare) hsigner
  rw [participantSigners, map_keyShare_firstHides] at hshare
  obtain ⟨i, hi, heq⟩ := List.mem_map.mp hshare
  rw [← heq]
  exact (shareAt_of_mem_participants F hn (hnodes hi)).1

omit [DecidableEq P] in
theorem signerIndices_participantSigners {F : Scalar[X]} {n : ℕ}
    (hn : n < 2 ^ 32) (r : Scalar) {nodes : List ParticipantIndex}
    (hnodes : nodes ⊆ participants n) :
    signerIndices (participantSigners (P := P) F n r nodes) = nodes := by
  have hshares := congrArg (List.map KeyShare.index)
    (map_keyShare_firstHides r
      (nodes.map fun i => shareAt (P := P) F n i.toNat))
  rw [List.map_map, map_index_shareAt hn hnodes] at hshares
  exact hshares

/-- If any `count` holders of the table of `F` sign some message for its key,
then `F` has degree below `count`: the first nonce is chosen so that the
challenge is not zero, and a rejected session shows. -/
theorem degree_lt_of_forall_sign [Sha512] {F : Scalar[X]} {n count : ℕ}
    (hn : n < 2 ^ 32) (hdegree : F.degree ≤ n) (hpos : 1 ≤ count)
    (hcount : count ≤ n) {r : Scalar} {message : Bytes}
    (hchallenge : computeChallenge (basepointMul r : P)
      (basepointMul (F.eval 0)) message ≠ 0)
    (hsign : ∀ signers : List (Signer P),
      (∀ signer ∈ signers, signer.keyShare ∈ shareVector F n) →
      (∀ signer ∈ signers, signer.nonce.index = signer.keyShare.index) →
      (signerIndices signers).Nodup → signers.length = count →
      ∃ signature, signSession signers message = .ok signature ∧
        verify signature (basepointMul (F.eval 0) : P) message = .ok ⟨⟩) :
    F.degree < count := by
  have hsharing : IsSharing F (shareVector (P := P) F n) :=
    isSharing_shareVector F hn
  apply Interpolation.degree_lt_of_forall_interpolated
    ParticipantIndex.toScalar (nodup_participants hn)
    ParticipantIndex.toScalar_injective.injOn
    (fun i hi => toScalar_ne_zero_of_mem_participants hn hi)
    (by rwa [length_participants]) hpos (by rwa [length_participants])
  intro nodes hnodes hsubset hsize
  have hsigner : ∀ signer ∈ participantSigners (P := P) F n r nodes,
      signer.keyShare ∈ shareVector F n ∧
        signer.nonce.index = signer.keyShare.index :=
    fun _ hmem => mem_participantSigners hn r hsubset hmem
  have hindices :=
    signerIndices_participantSigners (P := P) (F := F) hn r hsubset
  have hlength : (participantSigners (P := P) F n r nodes).length = count := by
    calc (participantSigners (P := P) F n r nodes).length
        = (signerIndices (participantSigners (P := P) F n r nodes)).length :=
          (List.length_map _).symm
      _ = count := by rw [hindices, hsize]
  have hne : nodes ≠ [] := by
    rw [← List.length_pos_iff]
    omega
  obtain ⟨signature, hsession, hverify⟩ := hsign
    (participantSigners F n r nodes)
    (fun signer hmem => (hsigner signer hmem).1)
    (fun signer hmem => (hsigner signer hmem).2) (by rwa [hindices])
    hlength
  obtain ⟨signature', hsession', hiff⟩ := signSession_accepted_iff
    (fun signer hmem => (hsigner signer hmem).2)
    (fun signer hmem => hsharing.groupPublicKey_eq _ (hsigner signer hmem).1)
    message
  rw [hsession] at hsession'
  cases hsession'
  have hproduct := hiff.mp hverify
  rw [sessionChallenge, participantSigners,
    groupCommitment_firstHides r (by simpa using hne)] at hproduct
  have hweighted := sub_eq_zero.mp
    ((mul_eq_zero.mp hproduct).resolve_left hchallenge)
  rw [← participantSigners, weightedSecret_eq fun signer hmem =>
    hsharing.secret_eq_eval (hsigner signer hmem).1] at hweighted
  rw [← hindices]
  exact hweighted

/-- Adding a polynomial of low degree keeps the degree on the same side of the
bound. -/
theorem degree_lt_of_degree_add_lt {F delta : Scalar[X]} {count : ℕ}
    (hdelta : delta.degree < count) (hsum : (F + delta).degree < count) :
    F.degree < count := by
  rw [← add_sub_cancel_right F delta]
  exact lt_of_le_of_lt (Polynomial.degree_sub_le _ _) (max_lt hsum hdelta)

/-- Rotation installs a threshold exactly when the configuration counts the
shares and the old polynomial is already of degree below the threshold. -/
theorem rotation_installs_threshold_iff {F : Scalar[X]}
    {shares : List (KeyShare P)} (hsharing : IsSharing F shares) {t : ℕ}
    (ht : 1 ≤ t) (hle : t ≤ shares.length) (hdegree : F.degree < t)
    {threshold total : UInt32} {newConfig : ThresholdConfig}
    (hconfig : ThresholdConfig.new threshold total = .ok newConfig)
    (rng : Rng) :
    InstallsThreshold shares newConfig rng ↔
      newConfig.total.toNat = shares.length ∧
        F.degree < newConfig.threshold.toNat := by
  obtain ⟨-, hvalid⟩ := (ThresholdConfig.new_eq_ok_iff _ _ _).mp hconfig
  have hne : shares ≠ [] := by
    rw [← List.length_pos_iff]
    omega
  have hrotate := hsharing.rotateShares_eq_ok hne hvalid.1 rng
  let delta := rotationDelta shares.length newConfig rng
  have hdelta : delta.degree < newConfig.threshold.toNat :=
    degree_rotationDelta_lt _ hvalid.1 rng
  have hnew : IsSharing (F + delta) (shareVector (P := P) (F + delta)
      shares.length) := isSharing_shareVector _ hsharing.length_lt
  have hzero : (F + delta).eval 0 = F.eval 0 := by
    rw [Polynomial.eval_add, eval_zero_rotationDelta, add_zero]
  have hkey : ∀ share ∈ shares,
      share.groupPublicKey = basepointMul ((F + delta).eval 0) := by
    intro share hshare
    rw [hsharing.groupPublicKey_eq share hshare, hzero]
  have hadd {bound : ℕ} (hF : F.degree < bound) (hD : delta.degree < bound) :
      (F + delta).degree < bound :=
    lt_of_le_of_lt (Polynomial.degree_add_le F delta) (max_lt hF hD)
  constructor
  · rintro (⟨error, herror⟩ | ⟨htotal, newShares, rng', hok, -, hcount, -, hsign⟩)
    · rw [hrotate] at herror
      cases herror
    · rw [hrotate] at hok
      cases hok
      rw [shareVector_length] at hcount
      refine ⟨htotal, degree_lt_of_degree_add_lt hdelta ?_⟩
      -- any hash function will do, so take one without zero challenges
      let _ := testHash fun _ => true
      have hlow : (F + delta).degree < shares.length :=
        hadd (lt_of_lt_of_le hdegree (by exact_mod_cast hle))
          (lt_of_lt_of_le hdelta (by exact_mod_cast hcount))
      have hchallenge : computeChallenge (basepointMul 0 : P)
          (basepointMul ((F + delta).eval 0)) [] ≠ 0 := by
        rw [computeChallenge_testHash, if_pos rfl]
        exact one_ne_zero
      apply degree_lt_of_forall_sign hsharing.length_lt hlow.le hvalid.1 hcount
        hchallenge
      intro signers hmem hnonce hnodup hsize
      obtain ⟨signature, hsession, hverify⟩ :=
        hsign signers [] hmem hnonce hnodup hsize
      have hfirst := hverify _ (List.head_mem hne)
      rw [hkey _ (List.head_mem hne)] at hfirst
      exact ⟨signature, hsession, hfirst⟩
  · rintro ⟨htotal, hlow⟩
    right
    refine ⟨htotal, _, _, hrotate, shareVector_length _ _, ?_, ?_, ?_⟩
    · rw [shareVector_length, ← htotal]
      exact hvalid.2
    · intro key hgroup
      exact hsharing.hasGroupKey_of_eval_eq hnew hzero hne hgroup
    · intro _ signers message hmem hnonce hnodup hsize
      obtain ⟨signature, hsession, hverify⟩ := hnew.signs hmem hnonce hnodup
        (by rw [hsize]; exact hadd hlow hdelta) message
      refine ⟨signature, hsession, fun share hshare => ?_⟩
      rw [hkey share hshare]
      exact hverify

omit [EdwardsGroup P] [DecidableEq P] in
/-- From two of three to three of three the rotation works. -/
theorem rotation_installs_threshold_three :
    InstallsThreshold (linearShares 3 3) ⟨3, 3⟩ unitRng :=
  (rotation_installs_threshold_iff (isSharing_linearShares 3 3) (by decide)
    (by decide) (degree_linearPolynomial_lt 3 3)
    (ThresholdConfig.new_eq_ok_iff 3 3 ⟨3, 3⟩ |>.mpr ⟨rfl, by decide, by decide⟩)
    unitRng).mpr
    ⟨rfl, lt_of_lt_of_le (degree_linearPolynomial_lt 3 3) (by decide)⟩

omit [EdwardsGroup P] [DecidableEq P] in
/-- Asked for a threshold of one, rotation returns the shares of `3 + 3 * x`
unchanged, and a single holder is still rejected. -/
theorem rotation_to_one_rejected :
    letI := sha512Reference
    WellFormed 2 (linearShares 3 3) ∧
      ThresholdConfig.new 1 3 = .ok ⟨1, 3⟩ ∧
      (∃ rng', rotateShares (linearShares 3 3) ⟨1, 3⟩ unitRng =
        .ok (linearShares 3 3, rng')) ∧
      (∃ signature,
        signSession [⟨linearShare 3 3 1, ⟨1, 1, 1⟩⟩] (utf8 "test") =
            .ok signature ∧
          verify signature (linearShare 3 3 1).groupPublicKey (utf8 "test") ≠
            .ok ⟨⟩) ∧
      ¬ InstallsThreshold (linearShares 3 3) ⟨1, 3⟩ unitRng := by
  let _ := sha512Reference
  have hrotate : ∃ rng', rotateShares (linearShares 3 3) ⟨1, 3⟩ unitRng =
      .ok (linearShares 3 3, rng') := by
    apply exists_rng_of_shares
    decide +kernel
  let signers : List (Signer ReferencePoint) :=
    [⟨linearShare 3 3 1, ⟨1, 1, 1⟩⟩]
  have hsession := signSession_eq_ok signers (utf8 "test")
  have hreject : verify
      (aggregate (utf8 "test")
        (signers.map fun signer => signer.nonce.commitment)
        (signers.map fun signer =>
          honestPartial signer.keyShare signer.nonce (utf8 "test")
            (signers.map fun other => other.nonce.commitment)))
      (linearShare 3 3 1).groupPublicKey (utf8 "test") ≠ .ok ⟨⟩ := by
    rw [Ne, verify_eq_ok_iff]
    decide +kernel
  have hmem := linearShare_mem 3 3 (i := 1) (by decide) (by decide)
  refine ⟨wellFormed_linearShares 3 3, rfl, hrotate,
    ⟨_, hsession, hreject⟩, ?_⟩
  rintro (⟨error, herror⟩ | ⟨-, newShares, rng', hok, -, -, -, hsign⟩)
  · obtain ⟨rng', hrotate⟩ := hrotate
    rw [hrotate] at herror
    cases herror
  · obtain ⟨rng', hrotate⟩ := hrotate
    rw [hrotate] at hok
    cases hok
    obtain ⟨signature, hsession', hverify⟩ := hsign signers (utf8 "test")
      (fun signer hsigner => by rw [List.mem_singleton.mp hsigner]; exact hmem)
      (fun signer hsigner => by rw [List.mem_singleton.mp hsigner]; rfl)
      (List.nodup_singleton _) rfl
    rw [hsession] at hsession'
    have hsame := Except.ok.inj hsession'
    rw [← hsame] at hverify
    exact hreject (hverify _ hmem)

end NewThreshold

end CraftSec
