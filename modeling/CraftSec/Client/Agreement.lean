/-
What an attestation's calls say about its result, for every transport.  The
log of the calls is taken by a recording transport, which changes nothing for
the client.
-/
import CraftSec.Client.Client
import CraftSec.Dkg.Invariant

namespace CraftSec

open History (Trace)

section Logs

variable {P : Type}

/-- An approval: the node and the transaction it answered with. -/
def Event.approval : Event P → Option (ℕ × Transaction)
  | .round1 node _ (.ok ⟨.valid tx, _⟩) => some (node, tx)
  | _ => none

/-- The approvals in a log, in the order in which they were given. -/
def approvals (events : List (Event P)) : List (ℕ × Transaction) :=
  events.reverse.filterMap Event.approval

/-- The nodes that answered round 2, in the order of their answers. -/
def signers (events : List (Event P)) : List ℕ :=
  events.reverse.filterMap Event.signed

theorem approvals_cons (event : Event P) (past : List (Event P)) :
    approvals (event :: past) = approvals past ++ event.approval.toList := by
  rw [approvals, List.reverse_cons, List.filterMap_append, approvals]
  cases h : event.approval <;> simp [h]

theorem signers_cons (event : Event P) (past : List (Event P)) :
    signers (event :: past) = signers past ++ event.signed.toList := by
  rw [signers, List.reverse_cons, List.filterMap_append, signers]
  cases h : event.signed <;> simp [h]

/-- How a log grows while approvals are collected from `indices`: nobody signs,
and the new approvals come from these nodes in their order. -/
structure Approves (indices : List ℕ) (past now : List (Event P)) : Prop where
  signers_eq : signers now = signers past
  nodes : ∃ picked, picked.Sublist indices ∧
    (approvals now).map Prod.fst = (approvals past).map Prod.fst ++ picked

theorem Approves.refl (indices : List ℕ) (past : List (Event P)) :
    Approves indices past past where
  signers_eq := rfl
  nodes := ⟨[], List.nil_sublist _, (List.append_nil _).symm⟩

theorem Approves.trans {first rest : List ℕ} {past middle now : List (Event P)}
    (hfirst : Approves first past middle) (hrest : Approves rest middle now) :
    Approves (first ++ rest) past now := by
  obtain ⟨own, hown, hownNodes⟩ := hfirst.nodes
  obtain ⟨picked, hpicked, hnodes⟩ := hrest.nodes
  refine ⟨hrest.signers_eq.trans hfirst.signers_eq, own ++ picked,
    hown.append hpicked, ?_⟩
  rw [hnodes, hownNodes, List.append_assoc]

/-- The step lemma: one round 1 call, whatever its answer. -/
theorem Approves.round1 (i : ℕ) (request : AttestationRequest)
    (outcome : Outcome (Round1Response P)) (past : List (Event P)) :
    Approves [i] past (.round1 i request outcome :: past) := by
  refine ⟨by simp [signers_cons, Event.signed], ?_⟩
  rw [approvals_cons, List.map_append]
  rcases outcome with abort | ⟨⟨tx⟩ | ⟨reason⟩, commitment⟩
  · exact ⟨[], List.nil_sublist _, rfl⟩
  · exact ⟨[i], List.Sublist.refl _, rfl⟩
  · exact ⟨[], List.nil_sublist _, rfl⟩

end Logs

variable {T P : Type} [NodeTransport T P]

/-- The same client over a transport that records its calls. -/
def CraftSecClient.recorded (client : CraftSecClient T P) :
    CraftSecClient (Trace T (Event P)) P where
  transport := ⟨client.transport, []⟩
  groupPublicKey := client.groupPublicKey
  threshold := client.threshold
  nodeCount := client.nodeCount

section Simulation

/-- Recording does not change the collection loop. -/
theorem collect_recorded (threshold : ℕ) (request : AttestationRequest)
    (indices : List ℕ) (collected : Collected P) (trace : Trace T (Event P)) :
    ∃ events, collect threshold request indices collected trace =
      ((collect threshold request indices collected trace.state).1,
        ⟨(collect threshold request indices collected trace.state).2,
          events⟩) := by
  induction indices generalizing collected trace with
  | nil => exact ⟨trace.events, rfl⟩
  | cons i rest ih =>
      rw [collect, collect, round1_recorded]
      generalize NodeTransport.round1 trace.state i request = result
      obtain ⟨outcome, after⟩ := result
      cases outcome with
      | error abort =>
          cases abort with
          | panic => exact ⟨_, rfl⟩
          | err error => exact ih collected ⟨after, _⟩
      | ok resp =>
          dsimp only
          split
          next => exact ⟨_, rfl⟩
          next => exact ih (collected.add i resp) ⟨after, _⟩

/-- Recording does not change the signing loop. -/
theorem requestPartials_recorded (message : Bytes)
    (commitments : List (SigningCommitment P)) (nodes : List ℕ)
    (trace : Trace T (Event P)) :
    ∃ events, requestPartials message commitments nodes trace =
      ((requestPartials message commitments nodes trace.state).1,
        ⟨(requestPartials message commitments nodes trace.state).2,
          events⟩) := by
  induction nodes generalizing trace with
  | nil => exact ⟨trace.events, rfl⟩
  | cons node rest ih =>
      rw [requestPartials, requestPartials, round2_recorded]
      generalize NodeTransport.round2 trace.state node message commitments =
        result
      obtain ⟨outcome, after⟩ := result
      cases outcome with
      | error abort => exact ⟨_, rfl⟩
      | ok resp =>
          obtain ⟨events, hrest⟩ := ih ⟨after,
            .round2 node message commitments (.ok resp) :: trace.events⟩
          dsimp only
          rw [hrest]
          generalize requestPartials message commitments rest after = result
          obtain ⟨outcome, last⟩ := result
          cases outcome with
          | error abort => exact ⟨events, rfl⟩
          | ok partials => exact ⟨events, rfl⟩

variable [EdwardsGroup P] [DecidableEq P] [Sha512] [FloatFormat]

theorem finish_recorded (groupPublicKey : P) (threshold : ℕ)
    (collected : Collected P) (trace : Trace T (Event P)) :
    ∃ events, finish groupPublicKey threshold collected trace =
      ((finish groupPublicKey threshold collected trace.state).1,
        ⟨(finish groupPublicKey threshold collected trace.state).2,
          events⟩) := by
  rw [finish, finish]
  split
  next => exact ⟨trace.events, rfl⟩
  next =>
    split
    next => exact ⟨trace.events, rfl⟩
    next transaction _ =>
      dsimp only
      split
      next => exact ⟨trace.events, rfl⟩
      next commitments _ =>
        obtain ⟨events, hpartials⟩ := requestPartials_recorded
          transaction.signingBytes commitments
          (collected.validResponses.map Prod.fst) trace
        rw [hpartials]
        refine ⟨events, ?_⟩
        cases requestPartials transaction.signingBytes commitments
            (collected.validResponses.map Prod.fst) trace.state with
        | mk outcome last =>
            cases outcome with
            | error abort => rfl
            | ok partials =>
                dsimp only
                split
                next => rfl
                next => rfl

/-- A recorded attestation ends like the unrecorded one. -/
theorem attest_recorded (client : CraftSecClient T P)
    (request : AttestationRequest) :
    ∃ events, client.recorded.attest request =
      ((client.attest request).1, ⟨(client.attest request).2, events⟩) := by
  obtain ⟨events, hcollect⟩ := collect_recorded client.threshold.toNat request
    (List.range client.nodeCount) ⟨[], none⟩
    (⟨client.transport, []⟩ : Trace T (Event P))
  rw [CraftSecClient.attest, CraftSecClient.attest]
  simp only [CraftSecClient.recorded]
  rw [hcollect]
  cases collect client.threshold.toNat request (List.range client.nodeCount)
      ⟨[], none⟩ client.transport with
  | mk outcome after =>
      cases outcome with
      | error abort => exact ⟨events, rfl⟩
      | ok collected =>
          exact finish_recorded client.groupPublicKey client.threshold.toNat
            collected ⟨after, events⟩

theorem attest_of_recorded {client : CraftSecClient T P}
    {request : AttestationRequest} {outcome : Outcome (AttestedTransaction P)}
    {trace : Trace T (Event P)}
    (hrecorded : client.recorded.attest request = (outcome, trace)) :
    client.attest request = (outcome, trace.state) := by
  obtain ⟨events, hsame⟩ := attest_recorded client request
  rw [hrecorded, Prod.mk.injEq] at hsame
  obtain ⟨rfl, rfl⟩ := hsame
  rfl

end Simulation

/-- The loop's variables against the log: the collected nodes are those of the
approvals, in order, and the transaction is the first approved one. -/
structure CollectInvariant (collected : Collected P)
    (events : List (Event P)) : Prop where
  nodes : collected.validResponses.map Prod.fst =
    (approvals events).map Prod.fst
  transaction : collected.transaction =
    (approvals events).head?.map Prod.snd

omit [NodeTransport T P] in
theorem CollectInvariant.add {collected : Collected P}
    {events : List (Event P)} (hinv : CollectInvariant collected events)
    (i : ℕ) (request : AttestationRequest) (resp : Round1Response P) :
    CollectInvariant (collected.add i resp)
      (.round1 i request (.ok resp) :: events) := by
  obtain ⟨result, commitment⟩ := resp
  cases result with
  | invalid reason =>
      have hsame : approvals (Event.round1 i request
          (.ok ⟨.invalid reason, commitment⟩) :: events) =
          approvals events := by
        rw [approvals_cons]
        exact List.append_nil _
      exact ⟨hsame ▸ hinv.nodes, hsame ▸ hinv.transaction⟩
  | valid tx =>
      have hnew : approvals (Event.round1 i request
          (.ok ⟨.valid tx, commitment⟩) :: events) =
          approvals events ++ [(i, tx)] := approvals_cons _ _
      constructor
      · rw [hnew]
        simp [Collected.add, hinv.nodes]
      · rw [hnew]
        have htransaction := hinv.transaction
        cases happrovals : approvals events with
        | nil =>
            rw [happrovals] at htransaction
            simp [Collected.add, htransaction]
        | cons first rest =>
            rw [happrovals] at htransaction
            simp [Collected.add, htransaction]

omit [NodeTransport T P] in
theorem CollectInvariant.err {collected : Collected P}
    {events : List (Event P)} (hinv : CollectInvariant collected events)
    (i : ℕ) (request : AttestationRequest) (abort : Abort) :
    CollectInvariant collected (.round1 i request (.error abort) :: events) := by
  have hsame : approvals (Event.round1 i request (.error abort) :: events) =
      approvals events := by
    rw [approvals_cons]
    exact List.append_nil _
  exact ⟨hsame ▸ hinv.nodes, hsame ▸ hinv.transaction⟩

/-- The run lemma of the collection loop. -/
theorem collect_invariant {threshold : ℕ} {request : AttestationRequest}
    {indices : List ℕ} {collected collected' : Collected P}
    {trace trace' : Trace T (Event P)}
    (hinv : CollectInvariant collected trace.events)
    (hcollect : collect threshold request indices collected trace =
      (.ok collected', trace')) :
    CollectInvariant collected' trace'.events ∧
      Approves indices trace.events trace'.events := by
  induction indices generalizing collected trace with
  | nil =>
      cases hcollect
      exact ⟨hinv, Approves.refl _ _⟩
  | cons i rest ih =>
      have hstep := Approves.round1 i request
        (NodeTransport.round1 trace.state i request).1 trace.events
      rw [collect, round1_recorded] at hcollect
      cases houtcome : (NodeTransport.round1 trace.state i request).1 with
      | error abort =>
          rw [houtcome] at hcollect hstep
          cases abort with
          | panic => cases hcollect
          | err error =>
              obtain ⟨hinv', hrest⟩ := ih (hinv.err i request _) hcollect
              exact ⟨hinv', hstep.trans hrest⟩
      | ok resp =>
          rw [houtcome] at hcollect hstep
          have hadd := hinv.add i request resp
          dsimp only at hcollect
          split at hcollect
          next =>
            cases hcollect
            exact ⟨hadd, hstep.trans (Approves.refl rest _)⟩
          next =>
            obtain ⟨hinv', hrest⟩ := ih hadd hcollect
            exact ⟨hinv', hstep.trans hrest⟩

/-- The answers of a completed signing loop, as events. -/
def answers (message : Bytes) (commitments : List (SigningCommitment P))
    (nodes : List ℕ) (partials : List PartialSignature) : List (Event P) :=
  List.zipWith (fun node part =>
    .round2 node message commitments (.ok ⟨part⟩)) nodes partials

/-- The run lemma of the signing loop: what it logs when it completes. -/
theorem requestPartials_log {message : Bytes}
    {commitments : List (SigningCommitment P)} {nodes : List ℕ}
    {trace trace' : Trace T (Event P)} {partials : List PartialSignature}
    (hpartials : requestPartials message commitments nodes trace =
      (.ok partials, trace')) :
    partials.length = nodes.length ∧
      trace'.events =
        (answers message commitments nodes partials).reverse ++
          trace.events := by
  induction nodes generalizing trace partials with
  | nil =>
      rw [requestPartials] at hpartials
      cases hpartials
      exact ⟨rfl, rfl⟩
  | cons node rest ih =>
      rw [requestPartials, round2_recorded] at hpartials
      cases houtcome : (NodeTransport.round2 trace.state node message
          commitments).1 with
      | error abort =>
          rw [houtcome] at hpartials
          cases hpartials
      | ok resp =>
          rw [houtcome] at hpartials
          dsimp only at hpartials
          split at hpartials
          next => cases hpartials
          next others last hrest =>
            cases hpartials
            obtain ⟨hlength, hlog⟩ := ih hrest
            refine ⟨by simp [hlength], ?_⟩
            rw [hlog]
            simp [answers]

omit [NodeTransport T P] in
theorem filterMap_answers (message : Bytes)
    (commitments : List (SigningCommitment P)) {nodes : List ℕ}
    {partials : List PartialSignature}
    (hlength : partials.length = nodes.length) :
    (answers message commitments nodes partials).filterMap Event.approval = [] ∧
      (answers message commitments nodes partials).filterMap Event.signed =
        nodes := by
  induction nodes generalizing partials with
  | nil => exact ⟨rfl, rfl⟩
  | cons node rest ih =>
      cases partials with
      | nil => cases hlength
      | cons part others =>
          obtain ⟨happroval, hsigned⟩ := ih (Nat.succ.inj hlength)
          exact ⟨happroval, congrArg (node :: ·) hsigned⟩

/-- A completed signing loop: every listed node signed, nobody approved. -/
theorem requestPartials_signers {message : Bytes}
    {commitments : List (SigningCommitment P)} {nodes : List ℕ}
    {trace trace' : Trace T (Event P)} {partials : List PartialSignature}
    (hpartials : requestPartials message commitments nodes trace =
      (.ok partials, trace')) :
    approvals trace'.events = approvals trace.events ∧
      signers trace'.events = signers trace.events ++ nodes := by
  obtain ⟨hlength, hlog⟩ := requestPartials_log hpartials
  obtain ⟨happroval, hsigned⟩ :=
    filterMap_answers message commitments hlength
  rw [hlog, approvals, signers, List.reverse_append, List.reverse_reverse,
    List.filterMap_append, List.filterMap_append, happroval, hsigned]
  exact ⟨List.append_nil _, rfl⟩

section Results

variable [EdwardsGroup P] [DecidableEq P] [Sha512] [FloatFormat]

/-- The log of a successful attestation: at least `threshold` distinct nodes
approved something, the attested transaction is what the first of them
approved, all of them signed, and the signature verifies. -/
theorem attest_log {client : CraftSecClient T P} {request : AttestationRequest}
    {attested : AttestedTransaction P} {trace : Trace T (Event P)}
    (hattest : client.recorded.attest request = (.ok attested, trace)) :
    client.threshold.toNat ≤ (approvals trace.events).length ∧
      ((approvals trace.events).map Prod.fst).Sublist
        (List.range client.nodeCount) ∧
      (approvals trace.events).head?.map Prod.snd =
        some attested.transaction ∧
      signers trace.events = (approvals trace.events).map Prod.fst ∧
      attested.groupPublicKey = client.groupPublicKey ∧
      attested.verify = .ok ⟨⟩ := by
  obtain ⟨collected, middle, commitments, partials, hcollect, henough,
    htransaction, -, hpartials, -, hkey, hverify⟩ := attest_eq_ok hattest
  have hempty : CollectInvariant (P := P) ⟨[], none⟩
      client.recorded.transport.events := ⟨rfl, rfl⟩
  obtain ⟨hinv, hsigners, picked, hpicked, hnodes⟩ :=
    collect_invariant hempty hcollect
  obtain ⟨happrovals, hsigned⟩ := requestPartials_signers hpartials
  have hlength : collected.validResponses.length =
      (approvals middle.events).length := by
    have hmap := congrArg List.length hinv.nodes
    simpa using hmap
  rw [happrovals]
  refine ⟨hlength ▸ henough, ?_, ?_, ?_, hkey, hverify⟩
  · rw [hnodes]
    exact hpicked
  · rw [← hinv.transaction, htransaction]
  · rw [hsigned, hsigners, ← hinv.nodes]
    rfl

/-- The nodes that sign a successful attestation are the collected ones. -/
theorem attest_signers {client : CraftSecClient T P}
    {request : AttestationRequest} {attested : AttestedTransaction P}
    {trace : Trace T (Event P)}
    (hattest : client.recorded.attest request = (.ok attested, trace))
    {collected : Collected P} {middle : T}
    (hcollected : collect client.threshold.toNat request
      (List.range client.nodeCount) ⟨[], none⟩ client.transport =
        (.ok collected, middle)) :
    signers trace.events = collected.validResponses.map Prod.fst := by
  obtain ⟨collected', middle', commitments, partials, hcollect, -, -, -,
    hpartials, -, -, -⟩ := attest_eq_ok hattest
  obtain ⟨events, hrecorded⟩ := collect_recorded client.threshold.toNat request
    (List.range client.nodeCount) ⟨[], none⟩
    (⟨client.transport, []⟩ : Trace T (Event P))
  rw [hcollected] at hrecorded
  have hsame := hcollect.symm.trans hrecorded
  rw [Prod.mk.injEq] at hsame
  cases hsame.1
  have hempty : CollectInvariant (P := P) ⟨[], none⟩
      client.recorded.transport.events := ⟨rfl, rfl⟩
  obtain ⟨-, hsigners, -⟩ := collect_invariant hempty hcollect
  rw [(requestPartials_signers hpartials).2, hsigners]
  rfl

/-- A returned attestation was approved by `threshold` distinct nodes, but each
of them may have approved a transaction of its own: the one attested is that of
the lowest-numbered of them. -/
theorem attest_approved_by_threshold {client : CraftSecClient T P}
    {request : AttestationRequest} {attested : AttestedTransaction P}
    {after : T} (hattest : client.attest request = (.ok attested, after)) :
    ∃ events,
      client.recorded.attest request = (.ok attested, ⟨after, events⟩) ∧
      client.threshold.toNat ≤ (approvals events).length ∧
      ((approvals events).map Prod.fst).Pairwise (· < ·) ∧
      (approvals events).head?.map Prod.snd = some attested.transaction ∧
      attested.groupPublicKey = client.groupPublicKey ∧
      attested.verify = .ok ⟨⟩ := by
  obtain ⟨events, hrecorded⟩ := attest_recorded client request
  rw [hattest] at hrecorded
  obtain ⟨henough, hnodes, hfirst, -, hkey, hverify⟩ := attest_log hrecorded
  exact ⟨events, hrecorded, henough,
    List.pairwise_lt_range.sublist hnodes, hfirst, hkey, hverify⟩

end Results

section Disagreement

/-- The transfer to somebody else. -/
def otherTransaction : Transaction :=
  { sampleTransaction with recipient := "did:carol" }

/-- A client of two nodes whose programs disagree about the recipient. -/
def disagreeingClient :
    CraftSecClient (LocalTransport ProgramRegistry ReferencePoint)
      ReferencePoint where
  transport := .new
    [approvingNode (linearShare 3 3 1) sampleTransaction,
      approvingNode (linearShare 3 3 2) otherTransaction] unitRng
  groupPublicKey := basepointMul (3 : ℕ)
  threshold := 2
  nodeCount := 2

theorem disagreeingClient_attest :
    letI := sha512Reference
    letI := floatFormatReference
    ∃ attested trace,
      disagreeingClient.recorded.attest sampleRequest =
        (.ok attested, trace) ∧
      attested.transaction = sampleTransaction ∧
      approvals trace.events =
        [(0, sampleTransaction), (1, otherTransaction)] := by
  let _ := sha512Reference
  let _ := floatFormatReference
  have hrun : ((disagreeingClient.recorded.attest sampleRequest).1.map
        AttestedTransaction.transaction,
      approvals (disagreeingClient.recorded.attest sampleRequest).2.events) =
      (.ok sampleTransaction,
        [(0, sampleTransaction), (1, otherTransaction)]) := by
    decide +kernel
  obtain ⟨hresult, hlog⟩ := Prod.mk.inj hrun
  cases hattest : disagreeingClient.recorded.attest sampleRequest with
  | mk outcome trace =>
      rw [hattest] at hresult hlog
      cases outcome with
      | error abort => cases hresult
      | ok attested =>
          exact ⟨attested, trace, rfl, Except.ok.inj hresult, hlog⟩

/-- Two nodes, threshold two, and the attested transaction was approved by one
of them. -/
theorem attest_despite_disagreement :
    letI := sha512Reference
    letI := floatFormatReference
    ∃ attested trace,
      disagreeingClient.recorded.attest sampleRequest =
        (.ok attested, trace) ∧
      approvals trace.events =
        [(0, sampleTransaction), (1, otherTransaction)] ∧
      attested.transaction.signingBytes = sampleTransaction.signingBytes ∧
      attested.transaction.signingBytes ≠ otherTransaction.signingBytes := by
  let _ := sha512Reference
  let _ := floatFormatReference
  obtain ⟨attested, trace, hattest, htransaction, hlog⟩ :=
    disagreeingClient_attest
  refine ⟨attested, trace, hattest, hlog, ?_, ?_⟩
  · rw [htransaction]
  · rw [htransaction]
    decide +kernel

theorem attest_approved_by_threshold_disagreeing :
    letI := sha512Reference
    letI := floatFormatReference
    ∃ attested after events,
      disagreeingClient.recorded.attest sampleRequest =
        (.ok attested, ⟨after, events⟩) ∧
      disagreeingClient.threshold.toNat ≤ (approvals events).length ∧
      (approvals events).head?.map Prod.snd = some attested.transaction ∧
      attested.verify = .ok ⟨⟩ := by
  let _ := sha512Reference
  let _ := floatFormatReference
  obtain ⟨attested, trace, hrecorded, -, -⟩ := disagreeingClient_attest
  obtain ⟨events, hlog, henough, -, hfirst, -, hverify⟩ :=
    attest_approved_by_threshold (attest_of_recorded hrecorded)
  exact ⟨attested, trace.state, events, hlog, henough, hfirst, hverify⟩

end Disagreement

end CraftSec
