/-
The simulated network transport.  It forwards to an in-memory transport after a
pause, so a client gets the same answers over either one; the pauses add up to
one latency for every call.
-/
import CraftSec.Client.Agreement
import CraftSec.Lib.Simulation

namespace CraftSec

open History (Trace)

section Agreement

variable {T T' P : Type} [NodeTransport T P] [NodeTransport T' P]

/-- Transports in related states answer alike and stay related, as far as they
are asked certain requests only. -/
structure TransportsAgree (Asked : AttestationRequest → Prop)
    (Related : T → T' → Prop) : Prop where
  round1 : ∀ {transport transport'}, Related transport transport' →
    ∀ (i : ℕ) {request}, Asked request →
      (NodeTransport.round1 transport i request).1 =
          (NodeTransport.round1 transport' i request).1 ∧
        Related (NodeTransport.round1 transport i request).2
          (NodeTransport.round1 transport' i request).2
  round2 : ∀ {transport transport'}, Related transport transport' →
    ∀ i message commitments,
      (NodeTransport.round2 transport i message commitments).1 =
          (NodeTransport.round2 transport' i message commitments).1 ∧
        Related (NodeTransport.round2 transport i message commitments).2
          (NodeTransport.round2 transport' i message commitments).2

omit [NodeTransport T' P] in
/-- Recording calls does not change the answers. -/
theorem transportsAgree_recorded : TransportsAgree (P := P) (fun _ => True)
    fun (trace : Trace T (Event P)) transport => trace.state = transport := by
  constructor
  · rintro trace _ rfl i request -
    exact ⟨rfl, rfl⟩
  · rintro trace _ rfl i message commitments
    exact ⟨rfl, rfl⟩

/-- The same outcome, with the transports left in related states. -/
def SameResult {A : Type} (Related : T → T' → Prop) (result : Outcome A × T)
    (result' : Outcome A × T') : Prop :=
  result.1 = result'.1 ∧ Related result.2 result'.2

variable {Asked : AttestationRequest → Prop} {Related : T → T' → Prop}

theorem TransportsAgree.collect
    (hagree : TransportsAgree (P := P) Asked Related) (threshold : ℕ)
    {request : AttestationRequest} (hasked : Asked request) (indices : List ℕ)
    (collected : Collected P) {transport : T} {transport' : T'}
    (hrelated : Related transport transport') :
    SameResult Related
      (CraftSec.collect threshold request indices collected transport)
      (CraftSec.collect threshold request indices collected transport') := by
  induction indices generalizing collected transport transport' with
  | nil => exact ⟨rfl, hrelated⟩
  | cons i rest ih =>
      obtain ⟨hanswer, hnext⟩ := hagree.round1 hrelated i hasked
      rw [CraftSec.collect, CraftSec.collect]
      generalize NodeTransport.round1 transport i request = result at *
      generalize NodeTransport.round1 transport' i request = result' at *
      obtain ⟨outcome, next⟩ := result
      obtain ⟨outcome', next'⟩ := result'
      simp only at hanswer hnext
      subst hanswer
      cases outcome with
      | error abort =>
          cases abort with
          | panic => exact ⟨rfl, hnext⟩
          | err error => exact ih collected hnext
      | ok resp =>
          dsimp only
          split
          next => exact ⟨rfl, hnext⟩
          next => exact ih (collected.add i resp) hnext

theorem TransportsAgree.requestPartials
    (hagree : TransportsAgree (P := P) Asked Related) (message : Bytes)
    (commitments : List (SigningCommitment P)) (nodes : List ℕ)
    {transport : T} {transport' : T'}
    (hrelated : Related transport transport') :
    SameResult Related
      (CraftSec.requestPartials message commitments nodes transport)
      (CraftSec.requestPartials message commitments nodes transport') := by
  induction nodes generalizing transport transport' with
  | nil => exact ⟨rfl, hrelated⟩
  | cons node rest ih =>
      obtain ⟨hanswer, hnext⟩ :=
        hagree.round2 hrelated node message commitments
      rw [CraftSec.requestPartials, CraftSec.requestPartials]
      generalize NodeTransport.round2 transport node message commitments =
        result at *
      generalize NodeTransport.round2 transport' node message commitments =
        result' at *
      obtain ⟨outcome, next⟩ := result
      obtain ⟨outcome', next'⟩ := result'
      simp only at hanswer hnext
      subst hanswer
      cases outcome with
      | error abort => exact ⟨rfl, hnext⟩
      | ok resp =>
          obtain ⟨hlater, hlast⟩ := ih hnext
          dsimp only
          generalize CraftSec.requestPartials message commitments rest next =
            later at *
          generalize CraftSec.requestPartials message commitments rest next' =
            later' at *
          obtain ⟨partials, last⟩ := later
          obtain ⟨partials', last'⟩ := later'
          simp only at hlater hlast
          subst hlater
          cases partials with
          | error abort => exact ⟨rfl, hlast⟩
          | ok partials => exact ⟨rfl, hlast⟩

variable [EdwardsGroup P] [DecidableEq P] [Sha512] [FloatFormat]

theorem TransportsAgree.finish
    (hagree : TransportsAgree (P := P) Asked Related) (groupPublicKey : P)
    (threshold : ℕ) (collected : Collected P) {transport : T} {transport' : T'}
    (hrelated : Related transport transport') :
    SameResult Related
      (CraftSec.finish groupPublicKey threshold collected transport)
      (CraftSec.finish groupPublicKey threshold collected transport') := by
  rw [CraftSec.finish, CraftSec.finish]
  split
  next => exact ⟨rfl, hrelated⟩
  next =>
    cases unwrap collected.transaction with
    | error abort => exact ⟨rfl, hrelated⟩
    | ok transaction =>
        dsimp only
        cases collected.validResponses.mapM fun entry =>
            unwrap entry.2.commitment with
        | error abort => exact ⟨rfl, hrelated⟩
        | ok commitments =>
            obtain ⟨hanswer, hnext⟩ := hagree.requestPartials
              transaction.signingBytes commitments
              (collected.validResponses.map Prod.fst) hrelated
            dsimp only
            generalize CraftSec.requestPartials _ commitments _ transport =
              result at *
            generalize CraftSec.requestPartials _ commitments _ transport' =
              result' at *
            obtain ⟨outcome, next⟩ := result
            obtain ⟨outcome', next'⟩ := result'
            simp only at hanswer hnext
            subst hanswer
            cases outcome with
            | error abort => exact ⟨rfl, hnext⟩
            | ok partials =>
                dsimp only
                cases verify (aggregate transaction.signingBytes commitments
                    partials) groupPublicKey transaction.signingBytes with
                | error abort => exact ⟨rfl, hnext⟩
                | ok => exact ⟨rfl, hnext⟩

/-- Clients that differ in their transports alone, which are in related
states. -/
structure ClientsAgree (Related : T → T' → Prop) (client : CraftSecClient T P)
    (client' : CraftSecClient T' P) : Prop where
  groupPublicKey : client.groupPublicKey = client'.groupPublicKey
  threshold : client.threshold = client'.threshold
  nodeCount : client.nodeCount = client'.nodeCount
  transport : Related client.transport client'.transport

theorem TransportsAgree.attest
    (hagree : TransportsAgree (P := P) Asked Related)
    {client : CraftSecClient T P} {client' : CraftSecClient T' P}
    (hclients : ClientsAgree Related client client')
    {request : AttestationRequest} (hasked : Asked request) :
    SameResult Related (client.attest request) (client'.attest request) := by
  obtain ⟨hanswer, hnext⟩ := hagree.collect client'.threshold.toNat hasked
    (List.range client'.nodeCount) ⟨[], none⟩ hclients.transport
  rw [CraftSecClient.attest, CraftSecClient.attest, hclients.groupPublicKey,
    hclients.threshold, hclients.nodeCount]
  generalize CraftSec.collect _ request _ _ client.transport = result at *
  generalize CraftSec.collect _ request _ _ client'.transport = result' at *
  obtain ⟨outcome, next⟩ := result
  obtain ⟨outcome', next'⟩ := result'
  simp only at hanswer hnext
  subst hanswer
  cases outcome with
  | error abort => exact ⟨rfl, hnext⟩
  | ok collected => exact hagree.finish _ _ collected hnext

/-- What both rounds keep, an attestation keeps. -/
theorem attest_keeps {I : T → Prop} {request : AttestationRequest}
    (hround1 : ∀ transport i, I transport →
      I (NodeTransport.round1 transport i request).2)
    (hround2 : ∀ transport i message commitments, I transport →
      I (NodeTransport.round2 transport i message commitments).2)
    (client : CraftSecClient T P) (hinv : I client.transport) :
    I (client.attest request).2 := by
  have hagree : TransportsAgree (P := P) (fun other => other = request)
      fun transport transport' : T => transport = transport' ∧ I transport := by
    constructor
    · rintro transport _ ⟨rfl, hkept⟩ i _ rfl
      exact ⟨rfl, rfl, hround1 transport i hkept⟩
    · rintro transport _ ⟨rfl, hkept⟩ i message commitments
      exact ⟨rfl, rfl, hround2 transport i message commitments hkept⟩
  exact (hagree.attest ⟨rfl, rfl, rfl, rfl, hinv⟩ rfl).2.2

end Agreement

/-- What goes on over a client's transport: the client attests a request, or
somebody else makes a call. -/
inductive ClientOp (P : Type) where
  | attest (request : AttestationRequest)
  | round (call : Call P)

inductive ClientAnswer (P : Type) where
  | attestation (outcome : Outcome (AttestedTransaction P))
  | round (event : Event P)

section Runs

variable {T T' P : Type} [NodeTransport T P] [NodeTransport T' P]
  [EdwardsGroup P] [DecidableEq P] [Sha512] [FloatFormat]

def ClientOp.perform (client : CraftSecClient T P) :
    ClientOp P → ClientAnswer P × CraftSecClient T P
  | .attest request =>
      let (outcome, transport) := client.attest request
      (.attestation outcome, { client with transport := transport })
  | .round call =>
      let (event, transport) := call.perform client.transport
      (.round event, { client with transport := transport })

/-- The answers of a run of operations, and the client as it is left. -/
def CraftSecClient.run (client : CraftSecClient T P) (ops : List (ClientOp P)) :
    List (ClientAnswer P) × CraftSecClient T P :=
  Simulation.answers ClientOp.perform client ops

variable {Related : T → T' → Prop}

/-- The step lemma: one operation, over either transport. -/
theorem TransportsAgree.perform
    (hagree : TransportsAgree (P := P) (fun _ => True) Related)
    {client : CraftSecClient T P} {client' : CraftSecClient T' P}
    (hclients : ClientsAgree Related client client') (op : ClientOp P) :
    (op.perform client).1 = (op.perform client').1 ∧
      ClientsAgree Related (op.perform client).2 (op.perform client').2 := by
  cases op with
  | attest request =>
      obtain ⟨hanswer, hnext⟩ := hagree.attest hclients trivial
      exact ⟨congrArg ClientAnswer.attestation hanswer,
        { hclients with transport := hnext }⟩
  | round call =>
      cases call with
      | round1 i request =>
          obtain ⟨hanswer, hnext⟩ := hagree.round1 hclients.transport i trivial
          exact ⟨congrArg (fun outcome =>
              ClientAnswer.round (.round1 i request outcome)) hanswer,
            { hclients with transport := hnext }⟩
      | round2 i message commitments =>
          obtain ⟨hanswer, hnext⟩ :=
            hagree.round2 hclients.transport i message commitments
          exact ⟨congrArg (fun outcome => ClientAnswer.round
              (.round2 i message commitments outcome)) hanswer,
            { hclients with transport := hnext }⟩

/-- The run lemma. -/
theorem TransportsAgree.run
    (hagree : TransportsAgree (P := P) (fun _ => True) Related)
    {client : CraftSecClient T P} {client' : CraftSecClient T' P}
    (hclients : ClientsAgree Related client client') (ops : List (ClientOp P)) :
    (client.run ops).1 = (client'.run ops).1 ∧
      ClientsAgree Related (client.run ops).2 (client'.run ops).2 := by
  have hrefines : Simulation.Refines ClientOp.perform ClientOp.perform
      (ClientsAgree (P := P) Related) Eq fun _ => True :=
    ⟨fun hrelated _ => (hagree.perform hrelated _).1,
      fun hrelated _ => (hagree.perform hrelated _).2⟩
  have hrun := hrefines.answers (fun op (_ : op ∈ ops) => trivial) hclients
  rw [List.forall₂_eq_eq_eq] at hrun
  exact hrun

end Runs

/-- `P2pTransport`, with the time it has slept so far.  The latency is in
nanoseconds. -/
structure P2pTransport (E P : Type) where
  inner : LocalTransport E P
  latency : ℕ
  slept : ℕ

namespace P2pTransport

variable {E P : Type}

def new (nodes : List (CraftSecNode E P)) (rng : Rng) (latency : ℕ) :
    P2pTransport E P where
  inner := .new nodes rng
  latency := latency
  slept := 0

variable [EdwardsGroup P] [ProgramExecutor E] [Sha512]

instance : NodeTransport (P2pTransport E P) P where
  round1 transport nodeIndex request :=
    let (outcome, inner) := transport.inner.round1 nodeIndex request
    (outcome, ⟨inner, transport.latency, transport.slept + transport.latency⟩)
  round2 transport nodeIndex message commitments :=
    (transport.inner.round2 nodeIndex message commitments,
      ⟨transport.inner, transport.latency,
        transport.slept + transport.latency⟩)

/-- The local transport is where the inner one is, and the pauses are as many
as the calls it has recorded. -/
def Mirrors (latency : ℕ) (transport : P2pTransport E P)
    (trace : Trace (LocalTransport E P) (Event P)) : Prop :=
  transport.inner = trace.state ∧ transport.latency = latency ∧
    transport.slept = latency * trace.events.length

theorem transportsAgree (latency : ℕ) :
    TransportsAgree (P := P) (fun _ => True)
      (Mirrors (E := E) (P := P) latency) := by
  constructor
  · rintro ⟨inner, own, slept⟩ trace ⟨hinner, hlatency, hslept⟩ i request -
    simp only at hinner hlatency hslept
    subst hinner hlatency hslept
    exact ⟨rfl, rfl, rfl, (Nat.mul_succ own trace.events.length).symm⟩
  · rintro ⟨inner, own, slept⟩ trace ⟨hinner, hlatency, hslept⟩ i message
      commitments
    simp only at hinner hlatency hslept
    subst hinner hlatency hslept
    exact ⟨rfl, rfl, rfl, (Nat.mul_succ own trace.events.length).symm⟩

variable [DecidableEq P] [FloatFormat]

/-- Whatever attestations and calls are made, a client gets the answers over
the simulated network that it gets in memory, leaves the nodes and their nonces
as they would be there, and sleeps one latency for every call. -/
theorem p2p_refines_local (nodes : List (CraftSecNode E P)) (rng : Rng)
    (latency : ℕ) (groupPublicKey : P) (threshold : UInt32) (nodeCount : ℕ)
    (ops : List (ClientOp P)) :
    let remote : CraftSecClient (P2pTransport E P) P :=
      ⟨.new nodes rng latency, groupPublicKey, threshold, nodeCount⟩
    let direct : CraftSecClient (LocalTransport E P) P :=
      ⟨.new nodes rng, groupPublicKey, threshold, nodeCount⟩
    (remote.run ops).1 = (direct.run ops).1 ∧
      (remote.run ops).2.transport.inner = (direct.run ops).2.transport ∧
      (remote.run ops).2.transport.slept =
        latency * (direct.recorded.run ops).2.transport.events.length := by
  intro remote direct
  have hremote : ClientsAgree (Mirrors latency) remote direct.recorded :=
    ⟨rfl, rfl, rfl, rfl, rfl, rfl⟩
  have hdirect : ClientsAgree (fun trace transport => trace.state = transport)
      direct.recorded direct := ⟨rfl, rfl, rfl, rfl⟩
  obtain ⟨hanswers, -, -, -, hinner, -, hslept⟩ :=
    (transportsAgree latency).run hremote ops
  obtain ⟨hanswers', -, -, -, hstate⟩ :=
    transportsAgree_recorded.run hdirect ops
  exact ⟨hanswers.trans hanswers', hinner.trans hstate, hslept⟩

end P2pTransport

end CraftSec
