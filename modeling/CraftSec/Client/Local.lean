/-
Attestation over the in-memory transport where the programs stay quiet.  The
nodes that approve sign with their default shares; where these sign like the
program's shares, the attestation succeeds exactly when enough nodes approve.
-/
import CraftSec.Client.Agreement
import CraftSec.Client.Quiet

open scoped Polynomial

namespace CraftSec

section Shares

variable {E P : Type} [EdwardsGroup P] [ProgramExecutor E]

/-- The nodes that approve hold, for the program of the request, shares of
distinct participants. -/
structure ProgramSharing (shares : List (KeyShare P))
    (nodes : List (CraftSecNode E P)) (request : AttestationRequest) :
    Prop where
  member : ∀ i ∈ approving nodes request,
    programShareAt nodes request.programCid i ∈ shares
  distinct : ((approving nodes request).map fun i =>
    (programShareAt nodes request.programCid i).index).Nodup

/-- The first `threshold` nodes that approve sign with their default share as
they would with the program's share. -/
def SignForProgram (nodes : List (CraftSecNode E P))
    (request : AttestationRequest) (threshold : ℕ) : Prop :=
  ∀ i ∈ (approving nodes request).take threshold,
    SignsAlike (keyShareAt nodes i) (programShareAt nodes request.programCid i)

/-- Nodes without program keys use their default share for every program. -/
theorem programSharing_of_default {shares : List (KeyShare P)}
    {nodes : List (CraftSecNode E P)}
    (hmember : ∀ node ∈ nodes,
      node.keyShare ∈ shares ∧ node.keyShares = fun _ => none)
    (hdistinct : (nodes.map fun node => node.keyShare.index).Nodup)
    (request : AttestationRequest) (threshold : ℕ) :
    ProgramSharing shares nodes request ∧
      SignForProgram nodes request threshold := by
  have hdefault : ∀ i (hi : i < nodes.length),
      programShareAt nodes request.programCid i = nodes[i].keyShare ∧
        keyShareAt nodes i = nodes[i].keyShare := by
    intro i hi
    rw [programShareAt, keyShareAt, List.getElem?_eq_getElem hi]
    refine ⟨?_, rfl⟩
    dsimp only
    rw [CraftSecNode.getKeyShare, (hmember _ (List.getElem_mem hi)).2]
    rfl
  have hindices : ((List.range nodes.length).map fun i =>
      (programShareAt nodes request.programCid i).index) =
      nodes.map fun node => node.keyShare.index := by
    apply List.ext_getElem
    · simp
    · intro i hi hi'
      have hlt : i < nodes.length := by simpa using hi'
      simp only [List.getElem_map, List.getElem_range, (hdefault i hlt).1]
  refine ⟨⟨?_, ?_⟩, ?_⟩
  · intro i hi
    have hlt := (approvedAt_of_mem_approving hi).1
    rw [(hdefault i hlt).1]
    exact (hmember _ (List.getElem_mem hlt)).1
  · rw [← hindices] at hdistinct
    exact hdistinct.sublist (List.filter_sublist.map _)
  · intro i hi
    have hlt := (approvedAt_of_mem_approving (List.mem_of_mem_take hi)).1
    rw [(hdefault i hlt).1, (hdefault i hlt).2]
    exact SignsAlike.refl _

section Flow

variable [Sha512] [FloatFormat] [DecidableEq P]

/-- The client's flow over nodes whose shares agree between the rounds: with
enough approvals it succeeds, and the nodes that sign are the first ones that
approve. -/
theorem local_attest_eq_ok {client : CraftSecClient (LocalTransport E P) P}
    {request : AttestationRequest}
    (hquiet : QuietOn client.transport.nodes request)
    {shares : List (KeyShare P)} {F : Scalar[X]}
    (hsharing : IsSharing F shares)
    (hdegree : F.degree < client.threshold.toNat)
    (hprogram : ProgramSharing shares client.transport.nodes request)
    (hsigns : SignForProgram client.transport.nodes request
      client.threshold.toNat)
    (hkey : HasGroupKey client.groupPublicKey shares)
    (hcount : client.nodeCount = client.transport.nodes.length)
    (hpositive : 1 ≤ client.threshold.toNat)
    (henough : client.threshold.toNat ≤
      (approving client.transport.nodes request).length) :
    ∃ attested after events,
      client.attest request = (.ok attested, after) ∧
      client.recorded.attest request = (.ok attested, ⟨after, events⟩) ∧
      (approving client.transport.nodes request).head?.bind
        (approvedAt client.transport.nodes request) =
          some attested.transaction ∧
      attested.verify = .ok ⟨⟩ ∧
      signers events = (approving client.transport.nodes request).take
        client.threshold.toNat := by
  have hmember : ∀ j ∈ (approving client.transport.nodes request).take
      client.threshold.toNat,
      programShareAt client.transport.nodes request.programCid j ∈ shares :=
    fun j hj => hprogram.member j (List.mem_of_mem_take hj)
  have hgroup : client.groupPublicKey = basepointMul (F.eval 0) := by
    obtain ⟨i, hi⟩ := List.exists_mem_of_length_pos (lt_of_lt_of_le hpositive
      henough)
    exact hsharing.key_eq hkey (hprogram.member i hi)
  obtain ⟨attested, after, collected, middle, hattest, hfirst, hverify,
    hcollect, hnodes⟩ := (hquiet.honest fun _ => id).attest client rfl
      hpositive (by rw [hcount]; exact henough)
      (fun j hj hnone _ => hquiet.declines (hcount ▸ hj) hnone)
      (by rw [hcount]; rfl) hdegree hgroup (fun _ _ => rfl) hsigns
      (fun j hj => ⟨hsharing.secret_eq_eval (hmember j hj),
        hsharing.groupPublicKey_eq _ (hmember j hj)⟩)
      (hprogram.distinct.sublist ((List.take_sublist _ _).map _))
  obtain ⟨events, hrecorded⟩ := attest_recorded client request
  rw [hattest] at hrecorded
  refine ⟨attested, after, events, hattest, hrecorded, ?_, hverify, ?_⟩
  · rw [List.head?_take, if_neg (by omega)] at hfirst
    exact head?_approving hfirst
  · rw [attest_signers hrecorded hcollect, hnodes]

/-- Over nodes with shares of distinct participants of one sharing and no
program keys, the attestation succeeds exactly when `threshold` nodes approve.
The first of them decides the transaction and the first `threshold` of them
sign; otherwise the error counts the approvals. -/
theorem attest_iff_enough_approvals [PureExecutor E] {t : ℕ}
    {shares : List (KeyShare P)}
    (hwf : WellFormed t shares)
    {client : CraftSecClient (LocalTransport E P) P}
    (hmember : ∀ node ∈ client.transport.nodes,
      node.keyShare ∈ shares ∧ node.keyShares = fun _ => none)
    (hdistinct : (client.transport.nodes.map fun node =>
      node.keyShare.index).Nodup)
    (hkey : HasGroupKey client.groupPublicKey shares)
    (hcount : client.nodeCount = client.transport.nodes.length)
    (ht : 1 ≤ t) (hthreshold : t ≤ client.threshold.toNat)
    (request : AttestationRequest) :
    ((∃ attested after, client.attest request = (.ok attested, after)) ↔
      client.threshold.toNat ≤
        (approving client.transport.nodes request).length) ∧
    (∀ attested after, client.attest request = (.ok attested, after) →
      (approving client.transport.nodes request).head?.bind
        (approvedAt client.transport.nodes request) =
          some attested.transaction ∧
      attested.verify = .ok ⟨⟩ ∧
      ∃ events,
        client.recorded.attest request = (.ok attested, ⟨after, events⟩) ∧
        signers events = (approving client.transport.nodes request).take
          client.threshold.toNat) ∧
    ((approving client.transport.nodes request).length <
        client.threshold.toNat →
      ∃ after, client.attest request =
        (Outcome.err (.insufficientShares
          (approving client.transport.nodes request).length
          client.threshold.toNat), after)) := by
  obtain ⟨F, hdegree, hsharing⟩ := hwf
  obtain ⟨hprogram, hsigns⟩ := programSharing_of_default hmember hdistinct
    request client.threshold.toNat
  have hquiet := quietOn_of_pure client.transport.nodes request
  have hsuccess := local_attest_eq_ok hquiet hsharing
    (lt_of_lt_of_le hdegree (by exact_mod_cast hthreshold)) hprogram hsigns
    hkey hcount (le_trans ht hthreshold)
  have hfailure := hquiet.attest_short hcount
  refine ⟨⟨?_, ?_⟩, ?_, hfailure⟩
  · rintro ⟨attested, after, hattest⟩
    by_contra hshort
    obtain ⟨after', herror⟩ := hfailure (Nat.lt_of_not_le hshort)
    rw [hattest] at herror
    cases herror
  · intro henough
    obtain ⟨attested, after, -, hattest, -⟩ := hsuccess henough
    exact ⟨attested, after, hattest⟩
  · intro attested after hattest
    by_cases henough : client.threshold.toNat ≤
        (approving client.transport.nodes request).length
    · obtain ⟨attested', after', events, hattest', hrecorded, hfirst, hverify,
        hsigners⟩ := hsuccess henough
      rw [hattest] at hattest'
      cases hattest'
      exact ⟨hfirst, hverify, events, hrecorded, hsigners⟩
    · obtain ⟨after', herror⟩ := hfailure (Nat.lt_of_not_le henough)
      rw [hattest] at herror
      cases herror

end Flow

end Shares

/-- Three nodes of which the second has frozen the transfer program. -/
def frozenSecondClient :
    CraftSecClient (LocalTransport ProgramRegistry ReferencePoint)
      ReferencePoint where
  transport := .new
    [approvingNode (linearShare 3 3 1) sampleTransaction,
      (approvingNode (linearShare 3 3 2) sampleTransaction).freezeProgram
        "Qm_transfer",
      approvingNode (linearShare 3 3 3) sampleTransaction] unitRng
  groupPublicKey := basepointMul (3 : ℕ)
  threshold := 2
  nodeCount := 3

theorem attest_iff_enough_approvals_frozen :
    letI := sha512Reference
    letI := floatFormatReference
    ∃ attested after events,
      frozenSecondClient.attest sampleRequest = (.ok attested, after) ∧
      attested.verify = .ok ⟨⟩ ∧
      frozenSecondClient.recorded.attest sampleRequest =
        (.ok attested, ⟨after, events⟩) ∧
      signers events = [0, 2] := by
  let _ := sha512Reference
  let _ := floatFormatReference
  have happroving : approving frozenSecondClient.transport.nodes
      sampleRequest = [0, 2] := by
    decide +kernel
  have hmember : ∀ node ∈ frozenSecondClient.transport.nodes,
      node.keyShare ∈ linearShares 3 3 ∧ node.keyShares = fun _ => none := by
    intro node hnode
    change node ∈ [_, _, _] at hnode
    simp only [List.mem_cons, List.not_mem_nil, or_false] at hnode
    rcases hnode with rfl | rfl | rfl
    · exact ⟨linearShare_mem 3 3 (by decide) (by decide), rfl⟩
    · exact ⟨linearShare_mem 3 3 (by decide) (by decide), rfl⟩
    · exact ⟨linearShare_mem 3 3 (by decide) (by decide), rfl⟩
  have hdistinct : (frozenSecondClient.transport.nodes.map fun node =>
      node.keyShare.index).Nodup := by
    decide +kernel
  obtain ⟨hiff, hresult, -⟩ := attest_iff_enough_approvals
    (wellFormed_linearShares 3 3) hmember hdistinct
    (hasGroupKey_linearShares 3 3) rfl (by decide) (by decide) sampleRequest
  obtain ⟨attested, after, hattest⟩ := hiff.mpr (by
    rw [happroving]
    decide)
  obtain ⟨-, hverify, events, hrecorded, hsigners⟩ :=
    hresult attested after hattest
  rw [happroving] at hsigners
  exact ⟨attested, after, events, hattest, hverify, hrecorded, hsigners⟩

end CraftSec
