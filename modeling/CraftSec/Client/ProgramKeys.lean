/-
Signing with a program's own key over the in-memory transport.  Round 1 looks
the program's share up and round 2 signs with the default share, so the flow is
right exactly as far as the two shares sign alike.
-/
import CraftSec.Client.Local

open scoped Polynomial

namespace CraftSec

section Hashes

variable {P : Type} [EdwardsGroup P]

/-- Equal partial signatures on the same nonce: the shares have the same index
and their secrets weigh the same in the challenge. -/
theorem secret_mul_challenge_eq [Sha512] {own other : KeyShare P}
    {nonce : SigningNonce} {message : Bytes}
    {commitments : List (SigningCommitment P)}
    (hweight : lagrangeCoefficient other.index
      (commitments.map SigningCommitment.index) ≠ 0)
    (heq : honestPartial own nonce message commitments =
      honestPartial other nonce message commitments) :
    own.index = other.index ∧
      own.secret * computeChallenge (groupCommitment message commitments)
          own.groupPublicKey message =
        other.secret * computeChallenge (groupCommitment message commitments)
          other.groupPublicKey message := by
  have hindex : own.index = other.index := congrArg PartialSignature.index heq
  have hz := congrArg PartialSignature.z heq
  simp only [honestPartial, hindex, add_right_inj, mul_assoc] at hz
  exact ⟨hindex, mul_left_cancel₀ hweight hz⟩

/-- Shares whose partial signatures agree whatever the hash function is sign
alike. -/
theorem signsAlike_of_forall_hash {own other : KeyShare P}
    (hagree : ∀ [Sha512], ∃ nonce message,
      ∃ commitments : List (SigningCommitment P),
        lagrangeCoefficient other.index
            (commitments.map SigningCommitment.index) ≠ 0 ∧
          honestPartial own nonce message commitments =
            honestPartial other nonce message commitments) :
    SignsAlike own other := by
  -- with a constant challenge the secrets themselves are compared
  have hsecret : own.index = other.index ∧ own.secret = other.secret := by
    let _ := testHash fun _ => true
    obtain ⟨nonce, message, commitments, hweight, heq⟩ := hagree
    obtain ⟨hindex, hsecret⟩ := secret_mul_challenge_eq hweight heq
    rw [computeChallenge_testHash, computeChallenge_testHash] at hsecret
    exact ⟨hindex, by simpa using hsecret⟩
  refine ⟨hsecret.1, hsecret.2, ?_⟩
  -- a hash that recognises the other group key compares the keys
  let _ := testHash fun data =>
    (data.drop 32).take 32 == (EdwardsGroup.compress other.groupPublicKey).toList
  obtain ⟨nonce, message, commitments, hweight, heq⟩ := hagree
  have hproduct := (secret_mul_challenge_eq hweight heq).2
  have hkey : ∀ r publicKey : P,
      ((((EdwardsGroup.compress r).toList ++
        (EdwardsGroup.compress publicKey).toList ++ message).drop 32).take
          32) = (EdwardsGroup.compress publicKey).toList := by
    intro r publicKey
    rw [List.append_assoc, List.drop_left' (by simp), List.take_left' (by simp)]
  rw [computeChallenge_testHash, computeChallenge_testHash, hkey, hkey] at hproduct
  by_cases hsame : EdwardsGroup.compress own.groupPublicKey =
      EdwardsGroup.compress other.groupPublicKey
  · exact Or.inr hsame
  · left
    have hlist : ((EdwardsGroup.compress own.groupPublicKey).toList ==
        (EdwardsGroup.compress other.groupPublicKey).toList) = false := by
      rw [beq_eq_false_iff_ne]
      intro heq
      exact hsame (Vector.toList_inj.mp heq)
    rw [hlist] at hproduct
    simpa [hsecret.2] using hproduct.symm

end Hashes

section Flow

variable {E P : Type} [EdwardsGroup P] [ProgramExecutor E]

omit [ProgramExecutor E] in
/-- All partial signatures in a log are made with the signing nodes' shares for
the program: each with a nonce pair that is committed to, under the share's
index, in the list that is signed. -/
def SignedForProgram [Sha512] (nodes : List (CraftSecNode E P))
    (programCid : String) (events : List (Event P)) : Prop :=
  ∀ i message commitments response,
    .round2 i message commitments (.ok response) ∈ events →
      ∃ nonce : SigningNonce, nonce.commitment ∈ commitments ∧
        nonce.index = (programShareAt nodes programCid i).index ∧
        response.part = honestPartial (programShareAt nodes programCid i) nonce
          message commitments

variable [FloatFormat] [DecidableEq P]

/-- The log of the client's flow when enough nodes approve, whatever their
shares are: the first `threshold` of them sign with their default shares. -/
theorem local_attest_log [Sha512]
    {client : CraftSecClient (LocalTransport E P) P}
    {request : AttestationRequest}
    (hquiet : QuietOn client.transport.nodes request)
    (hcount : client.nodeCount = client.transport.nodes.length)
    (hpositive : 1 ≤ client.threshold.toNat)
    (henough : client.threshold.toNat ≤
      (approving client.transport.nodes request).length)
    {picked : List ℕ} (hpicked : (approving client.transport.nodes
      request).take client.threshold.toNat = picked) :
    ∃ (nonce : ℕ → SigningNonce) (message : Bytes),
      let commitments : List (SigningCommitment P) :=
        picked.map fun j => (nonce j).commitment
      (∀ j ∈ picked, (nonce j).index = (programShareAt
        client.transport.nodes request.programCid j).index) ∧
      ∀ outcome trace, client.recorded.attest request = (outcome, trace) →
        ∀ i message' commitments' response,
          .round2 i message' commitments' (.ok response) ∈ trace.events ↔
            i ∈ picked ∧ message' = message ∧ commitments' = commitments ∧
              response = ⟨honestPartial (keyShareAt client.transport.nodes i)
                (nonce i) message commitments⟩ := by
  obtain ⟨nonce, message, middle, hindex, hunsigned, -, hlog⟩ :=
    hquiet.recorded_attest hcount hpositive henough hpicked
  refine ⟨nonce, message, hindex, ?_⟩
  intro outcome trace hresult i message' commitments' response
  rw [hresult] at hlog
  rw [hlog, List.mem_append, List.mem_reverse, answers, List.zipWith_map_right,
    List.zipWith_self, List.mem_map]
  constructor
  · rintro (⟨j, hj, heq⟩ | hmem)
    · cases heq
      exact ⟨hj, rfl, rfl, rfl⟩
    · cases hunsigned _ hmem
  · rintro ⟨hi, rfl, rfl, rfl⟩
    exact Or.inl ⟨i, hi, rfl⟩

omit [FloatFormat] [DecidableEq P] in
/-- The nonce pair behind a commitment is known by the index of the share it
was drawn for. -/
theorem ProgramSharing.nonce_eq {shares : List (KeyShare P)}
    {nodes : List (CraftSecNode E P)} {request : AttestationRequest}
    (hprogram : ProgramSharing shares nodes request) {picked : List ℕ}
    (hpicked : ∀ j ∈ picked, j ∈ approving nodes request)
    {nonce : ℕ → SigningNonce}
    (hindex : ∀ j ∈ picked, (nonce j).index =
      (programShareAt nodes request.programCid j).index)
    {i : ℕ} (hi : i ∈ picked) {own : SigningNonce}
    (hown : own.commitment ∈
      picked.map fun j => (nonce j).commitment (P := P))
    (hownIndex : own.index =
      (programShareAt nodes request.programCid i).index) :
    own = nonce i := by
  obtain ⟨j, hj, heq⟩ := List.mem_map.mp hown
  have hnonce : nonce j = own := SigningNonce.commitment_injective heq
  have hsame : j = i := by
    apply List.inj_on_of_nodup_map hprogram.distinct (hpicked j hj)
      (hpicked i hi)
    rw [← hindex j hj, hnonce, hownIndex]
  rw [← hnonce, hsame]

/-- Over nodes whose programs stay quiet on the request, the attestation
succeeds with signatures made by the program's shares, whatever the hash
function is, if and only if the first `threshold` nodes that approve have
default shares that sign like their program's shares. -/
theorem attests_with_program_key_iff
    (client : CraftSecClient (LocalTransport E P) P)
    {request : AttestationRequest}
    (hquiet : QuietOn client.transport.nodes request)
    {shares : List (KeyShare P)}
    (hwf : WellFormed client.threshold.toNat shares)
    (hprogram : ProgramSharing shares client.transport.nodes request)
    (hkey : HasGroupKey client.groupPublicKey shares)
    (hcount : client.nodeCount = client.transport.nodes.length)
    (hpositive : 1 ≤ client.threshold.toNat)
    (henough : client.threshold.toNat ≤
      (approving client.transport.nodes request).length) :
    (∀ [Sha512], ∃ attested after events,
      client.attest request = (.ok attested, after) ∧
      client.recorded.attest request = (.ok attested, ⟨after, events⟩) ∧
      attested.groupPublicKey = client.groupPublicKey ∧
      attested.verify = .ok ⟨⟩ ∧
      SignedForProgram client.transport.nodes request.programCid events) ↔
    SignForProgram client.transport.nodes request client.threshold.toNat := by
  obtain ⟨F, hdegree, hsharing⟩ := hwf
  have hpicked : ∀ j ∈ (approving client.transport.nodes request).take
      client.threshold.toNat, j ∈ approving client.transport.nodes request :=
    fun j hj => List.mem_of_mem_take hj
  constructor
  · intro hattests i hi
    apply signsAlike_of_forall_hash
    intro
    obtain ⟨attested, after, events, -, hrecorded, -, -, hsigned⟩ := hattests
    obtain ⟨nonce, message, hindex, hlog⟩ :=
      local_attest_log hquiet hcount hpositive henough rfl
    obtain ⟨own, hown, hownIndex, hpart⟩ := hsigned i message _ _
      ((hlog _ _ hrecorded i message _ _).mpr ⟨hi, rfl, rfl, rfl⟩)
    have hsame := hprogram.nonce_eq hpicked hindex hi hown hownIndex
    subst hsame
    refine ⟨nonce i, message, _, ?_, hpart⟩
    have hindices : ∀ k ∈ (((approving client.transport.nodes request).take
        client.threshold.toNat).map fun j =>
          (nonce j).commitment (P := P)).map SigningCommitment.index,
        k.toScalar ≠ 0 := by
      intro k hk
      rw [List.map_map, List.mem_map] at hk
      obtain ⟨j, hj, rfl⟩ := hk
      change (nonce j).index.toScalar ≠ 0
      rw [hindex j hj]
      exact hsharing.toScalar_ne_zero (hprogram.member j (hpicked j hj))
    rw [lagrangeCoefficient_eq_zeroWeight]
    exact Interpolation.zeroWeight_ne_zero _ hindices
      fun j _ heq => ParticipantIndex.toScalar_injective heq
  · intro hsigns _
    obtain ⟨attested, after, events, hattest, hrecorded, -, hverify, -⟩ :=
      local_attest_eq_ok hquiet hsharing hdegree hprogram hsigns hkey hcount
        hpositive henough
    obtain ⟨-, -, -, -, hgroup, -⟩ := attest_log hrecorded
    refine ⟨attested, after, events, hattest, hrecorded, hgroup, hverify, ?_⟩
    intro i message' commitments' response hmem
    obtain ⟨nonce, message, hindex, hlog⟩ :=
      local_attest_log hquiet hcount hpositive henough rfl
    obtain ⟨hi, rfl, rfl, rfl⟩ :=
      (hlog _ _ hrecorded i message' commitments' response).mp hmem
    exact ⟨nonce i, List.mem_map_of_mem hi, hindex i hi,
      (hsigns i hi).honestPartial_eq _ _ _⟩

end Flow

section Samples

/-- Three nodes with default shares of `3 + 3 * x` that registered shares of
`a + b * x` for the transfer program. -/
def programKeyClient (a b : ℕ) :
    CraftSecClient (LocalTransport ProgramRegistry ReferencePoint)
      ReferencePoint where
  transport := .new
    ([1, 2, 3].map fun i =>
      (approvingNode (linearShare 3 3 i) sampleTransaction).registerKey
        "Qm_transfer" (linearShare a b i)) unitRng
  groupPublicKey := basepointMul (a : Scalar)
  threshold := 2
  nodeCount := 3

theorem approving_programKeyClient (a b : ℕ) :
    approving (programKeyClient a b).transport.nodes sampleRequest =
      [0, 1, 2] := rfl

theorem programSharing_programKeyClient (a b : ℕ) :
    ProgramSharing (linearShares a b) (programKeyClient a b).transport.nodes
      sampleRequest where
  member := by
    rw [approving_programKeyClient]
    intro i hi
    simp only [List.mem_cons, List.not_mem_nil, or_false] at hi
    rcases hi with rfl | rfl | rfl
    · exact linearShare_mem a b (i := 1) (by decide) (by decide)
    · exact linearShare_mem a b (i := 2) (by decide) (by decide)
    · exact linearShare_mem a b (i := 3) (by decide) (by decide)
  distinct := by
    rw [approving_programKeyClient]
    change ([1, 2, 3] : List ParticipantIndex).Nodup
    decide

/-- With a key of its own the program's attestations fail, although all nodes
approve. -/
theorem attest_fails_with_program_key :
    letI := sha512Reference
    letI := floatFormatReference
    WellFormed 2 (linearShares 5 1) ∧
      ProgramSharing (linearShares 5 1)
        (programKeyClient 5 1).transport.nodes sampleRequest ∧
      HasGroupKey (programKeyClient 5 1).groupPublicKey (linearShares 5 1) ∧
      approving (programKeyClient 5 1).transport.nodes sampleRequest =
        [0, 1, 2] ∧
      ((programKeyClient 5 1).attest sampleRequest).1 =
        Outcome.err (.invalidSignature
          "threshold signature verification failed") := by
  let _ := sha512Reference
  let _ := floatFormatReference
  exact ⟨wellFormed_linearShares 5 1, programSharing_programKeyClient 5 1,
    hasGroupKey_linearShares 5 1, rfl, by decide +kernel⟩

/-- It works when the registered shares are the default ones. -/
theorem attests_with_program_key_iff_default :
    letI := sha512Reference
    letI := floatFormatReference
    ∃ attested after events,
      (programKeyClient 3 3).attest sampleRequest = (.ok attested, after) ∧
      attested.verify = .ok ⟨⟩ ∧
      SignedForProgram (programKeyClient 3 3).transport.nodes
        sampleRequest.programCid events := by
  let _ := sha512Reference
  let _ := floatFormatReference
  have hsigns : SignForProgram (programKeyClient 3 3).transport.nodes
      sampleRequest (programKeyClient 3 3).threshold.toNat := by
    change ∀ i ∈ [0, 1], _
    intro i hi
    simp only [List.mem_cons, List.not_mem_nil, or_false] at hi
    rcases hi with rfl | rfl
    · exact SignsAlike.refl _
    · exact SignsAlike.refl _
  obtain ⟨attested, after, events, hattest, -, -, hverify, hsigned⟩ :=
    (attests_with_program_key_iff (programKeyClient 3 3) (quietOn_of_pure _ _)
      (wellFormed_linearShares 3 3) (programSharing_programKeyClient 3 3)
      (hasGroupKey_linearShares 3 3) rfl (by decide) (by decide)).mpr hsigns
  exact ⟨attested, after, events, hattest, hverify, hsigned⟩

end Samples

end CraftSec
