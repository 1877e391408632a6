/-
What a client can rely on when some nodes are faulty.  The client stops at the
first `threshold` approvals and has no verification shares, so a faulty node
that approves early gets into the signing set and cannot be told apart there.
-/
import CraftSec.Client.Local

open scoped Polynomial

namespace CraftSec

section Faults

variable {T P : Type} [NodeTransport T P] [EdwardsGroup P] [Sha512]
  [DecidableEq P] [FloatFormat]

/-- With `threshold` honest nodes, what is returned verifies whatever the other
nodes do.  When those of them that are asked before the `threshold`-th honest
node is found decline, the transaction of the first honest node is returned. -/
theorem attest_of_leading_honest {t : ℕ} {shares : List (KeyShare P)}
    (hwf : WellFormed t shares) {Inv : T → Prop}
    {held : T → ℕ → Option SigningNonce} {request : AttestationRequest}
    {honest : ℕ → Bool} {share : ℕ → KeyShare P}
    {tx : ℕ → Transaction}
    (hnodes : HonestNodes Inv held request honest (fun i => (share i).index)
      share tx)
    (client : CraftSecClient T P) (hinv : Inv client.transport)
    (ht : 1 ≤ t) (hthreshold : client.threshold.toNat = t)
    (hkey : HasGroupKey client.groupPublicKey shares)
    (hmember : ∀ i < client.nodeCount, honest i = true → share i ∈ shares)
    (hdistinct : ∀ i < client.nodeCount, ∀ j < client.nodeCount,
      honest i = true → honest j = true →
        (share i).index = (share j).index → i = j)
    (henough : t ≤ ((List.range client.nodeCount).filter honest).length) :
    (∀ attested after, client.attest request = (.ok attested, after) →
      attested.groupPublicKey = client.groupPublicKey ∧
        attested.verify = .ok ⟨⟩) ∧
    ((∀ j < client.nodeCount, honest j = false →
        ((List.range j).filter honest).length < t →
          Declines Inv request j) →
      ∃ attested after, client.attest request = (.ok attested, after) ∧
        some attested.transaction =
          ((List.range client.nodeCount).filter honest).head?.map tx ∧
        attested.groupPublicKey = client.groupPublicKey ∧
        attested.verify = .ok ⟨⟩) := by
  have hsafe : ∀ attested after,
      client.attest request = (.ok attested, after) →
        attested.groupPublicKey = client.groupPublicKey ∧
          attested.verify = .ok ⟨⟩ := by
    intro attested after hattest
    obtain ⟨collected, middle, commitments, partials, -, -, -, -, -, -, hgroup,
      hverify⟩ := attest_eq_ok hattest
    exact ⟨hgroup, hverify⟩
  refine ⟨hsafe, ?_⟩
  intro hdeclines
  obtain ⟨F, hdegree, hsharing⟩ := hwf
  subst hthreshold
  have hpicked : ∀ j ∈ ((List.range client.nodeCount).filter honest).take
      client.threshold.toNat, j < client.nodeCount ∧ honest j = true := by
    intro j hj
    obtain ⟨hrange, hhonest⟩ := List.mem_filter.mp (List.mem_of_mem_take hj)
    exact ⟨List.mem_range.mp hrange, hhonest⟩
  have hown : ∀ j ∈ ((List.range client.nodeCount).filter honest).take
      client.threshold.toNat, share j ∈ shares :=
    fun j hj => hmember j (hpicked j hj).1 (hpicked j hj).2
  have hgroup : client.groupPublicKey = basepointMul (F.eval 0) := by
    obtain ⟨i, hi⟩ := List.exists_mem_of_length_pos (lt_of_lt_of_le ht henough)
    obtain ⟨hrange, hhonest⟩ := List.mem_filter.mp hi
    exact hsharing.key_eq hkey
      (hmember i (List.mem_range.mp hrange) hhonest)
  have hindices : ((((List.range client.nodeCount).filter honest).take
      client.threshold.toNat).map fun j => (share j).index).Nodup := by
    apply List.Nodup.map_on
    · intro i hi j hj heq
      exact hdistinct i (hpicked i hi).1 j (hpicked j hj).1 (hpicked i hi).2
        (hpicked j hj).2 heq
    · exact (List.nodup_range.filter _).sublist (List.take_sublist _ _)
  obtain ⟨attested, after, collected, middle, hattest, hfirst, hverify, -, -⟩ :=
    hnodes.attest client hinv ht henough hdeclines rfl hdegree hgroup
      (fun _ _ => rfl) (fun _ _ => SignsAlike.refl _)
      (fun j hj => ⟨hsharing.secret_eq_eval (hown j hj),
        hsharing.groupPublicKey_eq _ (hown j hj)⟩) hindices
  rw [List.head?_take, if_neg (by omega)] at hfirst
  exact ⟨attested, after, hattest, hfirst, hsafe attested after hattest⟩

end Faults

section Samples

/-- Three nodes and threshold two; the first node is up to the caller. -/
def clientWithFirst (first : CraftSecNode ProgramRegistry ReferencePoint) :
    CraftSecClient (LocalTransport ProgramRegistry ReferencePoint)
      ReferencePoint where
  transport := .new
    [first, approvingNode (linearShare 3 3 2) sampleTransaction,
      approvingNode (linearShare 3 3 3) sampleTransaction] unitRng
  groupPublicKey := basepointMul (3 : ℕ)
  threshold := 2
  nodeCount := 3

/-- All nodes but the first are honest. -/
def laterNodes (i : ℕ) : Bool := i == 1 || i == 2

/-- The shares of the later nodes. -/
def laterShare (i : ℕ) : KeyShare ReferencePoint := linearShare 3 3 (i + 1)

theorem laterNodes_cases {i : ℕ} (hi : laterNodes i = true) : i = 1 ∨ i = 2 := by
  simpa [laterNodes] using hi

/-- Whatever the first node is, the later nodes are honest. -/
theorem laterNodes_honest [Sha512]
    (first : CraftSecNode ProgramRegistry ReferencePoint) :
    HonestNodes
      (fun transport => transport.nodes = (clientWithFirst first).transport.nodes)
      LocalTransport.held sampleRequest laterNodes
      (fun i => (laterShare i).index) laterShare
      fun _ => sampleTransaction := by
  have happroved : ∀ i, laterNodes i = true →
      approvedAt (clientWithFirst first).transport.nodes sampleRequest i =
        some sampleTransaction := by
    intro i hi
    rcases laterNodes_cases hi with rfl | rfl
    · rfl
    · rfl
  have hsome : ∀ i, laterNodes i = true →
      (approvedAt (clientWithFirst first).transport.nodes sampleRequest
        i).isSome = true := by
    intro i hi
    rw [happroved i hi]
    rfl
  apply ((quietOn_of_pure _ sampleRequest).honest hsome).congr
  · intro i hi
    rcases laterNodes_cases hi with rfl | rfl
    · rfl
    · rfl
  · intro i hi
    rcases laterNodes_cases hi with rfl | rfl
    · rfl
    · rfl
  · intro i hi
    rw [transactionAt, happroved i hi]
    rfl

/-- A node that approves but signs with the wrong secret. -/
def wrongSecretNode : CraftSecNode ProgramRegistry ReferencePoint :=
  approvingNode { linearShare 3 3 1 with secret := 0 } sampleTransaction

/-- Two honest nodes of three do not save the attestation from a first node
that approves and returns a wrong partial signature. -/
theorem attest_aborted_by_first_node :
    letI := sha512Reference
    letI := floatFormatReference
    WellFormed 2 (linearShares 3 3) ∧
      HasGroupKey (clientWithFirst wrongSecretNode).groupPublicKey
        (linearShares 3 3) ∧
      (∃ Inv held,
        HonestNodes Inv held sampleRequest laterNodes
          (fun i => (laterShare i).index) laterShare
          (fun _ => sampleTransaction) ∧
        Inv (clientWithFirst wrongSecretNode).transport) ∧
      (∀ i, laterNodes i = true → laterShare i ∈ linearShares 3 3) ∧
      ((List.range 3).filter laterNodes).length = 2 ∧
      ((clientWithFirst wrongSecretNode).attest sampleRequest).1 =
        Outcome.err (.invalidSignature
          "threshold signature verification failed") := by
  let _ := sha512Reference
  let _ := floatFormatReference
  refine ⟨wellFormed_linearShares 3 3, hasGroupKey_linearShares 3 3,
    ⟨_, _, laterNodes_honest wrongSecretNode, rfl⟩, ?_, rfl, by decide +kernel⟩
  intro i hi
  rcases laterNodes_cases hi with rfl | rfl
  · exact linearShare_mem 3 3 (by decide) (by decide)
  · exact linearShare_mem 3 3 (by decide) (by decide)

/-- A first node that has frozen the program is passed over. -/
theorem attest_of_leading_honest_frozen :
    letI := sha512Reference
    letI := floatFormatReference
    ∃ attested after,
      (clientWithFirst ((approvingNode (linearShare 3 3 1)
        sampleTransaction).freezeProgram "Qm_transfer")).attest
          sampleRequest = (.ok attested, after) ∧
      attested.transaction = sampleTransaction ∧
      attested.verify = .ok ⟨⟩ := by
  let _ := sha512Reference
  let _ := floatFormatReference
  obtain ⟨-, hsuccess⟩ := attest_of_leading_honest
    (wellFormed_linearShares 3 3) (laterNodes_honest _)
    (clientWithFirst ((approvingNode (linearShare 3 3 1)
      sampleTransaction).freezeProgram "Qm_transfer")) rfl (by decide) rfl
    (hasGroupKey_linearShares 3 3)
    (by
      intro i _ hi
      rcases laterNodes_cases hi with rfl | rfl
      · exact linearShare_mem 3 3 (by decide) (by decide)
      · exact linearShare_mem 3 3 (by decide) (by decide))
    (by
      intro i _ j _ hi hj heq
      rcases laterNodes_cases hi with rfl | rfl
      all_goals
        rcases laterNodes_cases hj with rfl | rfl
        all_goals first | rfl | exact absurd heq (by decide))
    (by decide)
  obtain ⟨attested, after, hattest, htransaction, -, hverify⟩ := hsuccess (by
    intro j hj hfaulty _
    have hzero : j = 0 := by
      change j < 3 at hj
      interval_cases j
      · rfl
      · cases hfaulty
      · cases hfaulty
    subst hzero
    exact (quietOn_of_pure _ _).declines (by decide) (by decide))
  exact ⟨attested, after, hattest, Option.some.inj htransaction, hverify⟩

end Samples

end CraftSec
