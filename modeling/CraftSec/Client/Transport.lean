/-
How a client reaches the nodes: the transport interface, the in-memory
transport with its one nonce slot per node, and transports whose calls are
recorded.
-/
import CraftSec.Lib.History
import CraftSec.Node.Node

namespace CraftSec

open History (Trace)

/-- Response from a node for round 1. -/
structure Round1Response (P : Type) where
  result : AttestationResult
  commitment : Option (SigningCommitment P)
deriving DecidableEq

/-- Response from a node for round 2. -/
structure Round2Response where
  part : PartialSignature
deriving DecidableEq

/-- `NodeTransport`.  Calls go through a shared reference; what they change
behind it is returned. -/
class NodeTransport (T : Type) (P : outParam Type) where
  round1 : T → ℕ → AttestationRequest → Outcome (Round1Response P) × T
  round2 : T → ℕ → Bytes → List (SigningCommitment P) →
    Outcome Round2Response × T

/-- `LocalTransport`, with the byte source `OsRng`.  There is a nonce slot for
every node. -/
structure LocalTransport (E P : Type) where
  nodes : List (CraftSecNode E P)
  nonces : List (Option SigningNonce)
  rng : Rng
  nonces_length : nonces.length = nodes.length

namespace LocalTransport

variable {E P : Type}

def new (nodes : List (CraftSecNode E P)) (rng : Rng) :
    LocalTransport E P where
  nodes := nodes
  nonces := List.replicate nodes.length none
  rng := rng
  nonces_length := List.length_replicate

/-- What a call leaves behind at node `i`. -/
def setNode (transport : LocalTransport E P) (i : ℕ)
    (node : CraftSecNode E P) (rng : Rng) : LocalTransport E P where
  nodes := transport.nodes.set i node
  nonces := transport.nonces
  rng := rng
  nonces_length := by rw [transport.nonces_length, List.length_set]

/-- `self.nonces.borrow_mut()[i] = nonce`. -/
def setNonce (transport : LocalTransport E P) (i : ℕ)
    (nonce : Option SigningNonce) : LocalTransport E P where
  nodes := transport.nodes
  nonces := transport.nonces.set i nonce
  rng := transport.rng
  nonces_length := by rw [List.length_set, transport.nonces_length]

variable [EdwardsGroup P] [ProgramExecutor E]

/-- `LocalTransport::round1`.  An error leaves the slot untouched. -/
def round1 (transport : LocalTransport E P) (nodeIndex : ℕ)
    (request : AttestationRequest) :
    Outcome (Round1Response P) × LocalTransport E P :=
  match transport.nodes[nodeIndex]? with
  | none => (Outcome.panic, transport)
  | some node =>
      let (outcome, node, rng) := node.processRequest request transport.rng
      let transport := transport.setNode nodeIndex node rng
      match outcome with
      | .error abort => (.error abort, transport)
      | .ok resp =>
          (.ok ⟨resp.result, resp.commitment⟩,
            transport.setNonce nodeIndex resp.nonce)

variable [Sha512]

/-- `LocalTransport::round2`.  The nonce is cloned out of its slot. -/
def round2 (transport : LocalTransport E P) (nodeIndex : ℕ) (message : Bytes)
    (commitments : List (SigningCommitment P)) : Outcome Round2Response := do
  let slot ← index transport.nonces nodeIndex
  let nonce ← match slot with
    | some nonce => .ok nonce
    | none => Outcome.err (.invalidSignature "no nonce")
  let node ← index transport.nodes nodeIndex
  let sig ← node.sign nonce message commitments
  return ⟨sig.part⟩

instance : NodeTransport (LocalTransport E P) P where
  round1 := round1
  round2 transport nodeIndex message commitments :=
    (transport.round2 nodeIndex message commitments, transport)

end LocalTransport

/-- A call made through a transport, with its answer. -/
inductive Event (P : Type) where
  | round1 (node : ℕ) (request : AttestationRequest)
      (outcome : Outcome (Round1Response P))
  | round2 (node : ℕ) (message : Bytes)
      (commitments : List (SigningCommitment P))
      (outcome : Outcome Round2Response)

/-- A call that can be made through a transport. -/
inductive Call (P : Type) where
  | round1 (node : ℕ) (request : AttestationRequest)
  | round2 (node : ℕ) (message : Bytes)
      (commitments : List (SigningCommitment P))

section Calls

variable {T P : Type} [NodeTransport T P]

def Call.perform (transport : T) : Call P → Event P × T
  | .round1 node request =>
      let (outcome, transport) := NodeTransport.round1 transport node request
      (.round1 node request outcome, transport)
  | .round2 node message commitments =>
      let (outcome, transport) :=
        NodeTransport.round2 transport node message commitments
      (.round2 node message commitments outcome, transport)

/-- Make the calls one after the other and record them. -/
def runCalls (transport : T) (calls : List (Call P)) : Trace T (Event P) :=
  History.run Call.perform transport calls

/-- A transport that records the calls it forwards. -/
instance : NodeTransport (Trace T (Event P)) P where
  round1 trace node request :=
    ((NodeTransport.round1 trace.state node request).1,
      History.record Call.perform trace (.round1 node request))
  round2 trace node message commitments :=
    ((NodeTransport.round2 trace.state node message commitments).1,
      History.record Call.perform trace (.round2 node message commitments))

/-- A recorded call is forwarded and its answer logged. -/
theorem round1_recorded (trace : Trace T (Event P)) (node : ℕ)
    (request : AttestationRequest) :
    NodeTransport.round1 trace node request =
      ((NodeTransport.round1 trace.state node request).1,
        ⟨(NodeTransport.round1 trace.state node request).2,
          .round1 node request
            (NodeTransport.round1 trace.state node request).1 ::
              trace.events⟩) := rfl

theorem round2_recorded (trace : Trace T (Event P)) (node : ℕ)
    (message : Bytes) (commitments : List (SigningCommitment P)) :
    NodeTransport.round2 trace node message commitments =
      ((NodeTransport.round2 trace.state node message commitments).1,
        ⟨(NodeTransport.round2 trace.state node message commitments).2,
          .round2 node message commitments
            (NodeTransport.round2 trace.state node message commitments).1 ::
              trace.events⟩) := rfl

end Calls

namespace Event

variable {P : Type}

/-- A round 1 call that was answered: the node and its answer. -/
def answered : Event P → Option (ℕ × Round1Response P)
  | .round1 node _ (.ok response) => some (node, response)
  | _ => none

/-- A round 2 call that was answered with a partial signature. -/
def signed : Event P → Option ℕ
  | .round2 node _ _ (.ok _) => some node
  | _ => none

theorem answered_eq_none_of_signed {event : Event P} {node : ℕ}
    (hsigned : event.signed = some node) : event.answered = none := by
  cases event with
  | round1 => cases hsigned
  | round2 => rfl

theorem eq_round2_of_signed {event : Event P} {node : ℕ}
    (hsigned : event.signed = some node) :
    ∃ message commitments response,
      event = .round2 node message commitments (.ok response) := by
  cases event with
  | round1 => cases hsigned
  | round2 own message commitments outcome =>
      cases outcome with
      | error => cases hsigned
      | ok response =>
          cases hsigned
          exact ⟨message, commitments, response, rfl⟩

end Event

namespace LocalTransport

variable {E P : Type}

@[simp]
theorem setNode_nonces (transport : LocalTransport E P) (i : ℕ)
    (node : CraftSecNode E P) (rng : Rng) :
    (transport.setNode i node rng).nonces = transport.nonces := rfl

@[simp]
theorem setNode_nodes (transport : LocalTransport E P) (i : ℕ)
    (node : CraftSecNode E P) (rng : Rng) :
    (transport.setNode i node rng).nodes = transport.nodes.set i node := rfl

@[simp]
theorem setNonce_nonces (transport : LocalTransport E P) (i : ℕ)
    (nonce : Option SigningNonce) :
    (transport.setNonce i nonce).nonces = transport.nonces.set i nonce := rfl

@[simp]
theorem setNonce_nodes (transport : LocalTransport E P) (i : ℕ)
    (nonce : Option SigningNonce) :
    (transport.setNonce i nonce).nodes = transport.nodes := rfl

/-- The nonce held for node `i`. -/
def held (transport : LocalTransport E P) (i : ℕ) : Option SigningNonce :=
  (transport.nonces[i]?).join

section Rounds

variable [EdwardsGroup P]

/-- Round 1 reaches an existing node.  An approval fills the node's slot with
the nonce committed to, a rejection empties it, and a failure leaves it. -/
theorem round1_cases [ProgramExecutor E] (transport : LocalTransport E P)
    (i : ℕ) (request : AttestationRequest) :
    (transport.nodes[i]? = none ∧
      transport.round1 i request = (Outcome.panic, transport)) ∨
    ∃ node node' rng, transport.nodes[i]? = some node ∧
      node' = (node.processRequest request transport.rng).2.1 ∧
      ((∃ tx, node.approved request = some tx ∧
          transport.round1 i request =
            (.ok ⟨.valid tx,
                some (node.drawNonce request transport.rng).commitment⟩,
              (transport.setNode i node' rng).setNonce i
                (some (node.drawNonce request transport.rng)))) ∨
        (∃ reason, node.approved request = none ∧
          transport.round1 i request =
            (.ok ⟨.invalid reason, none⟩,
              (transport.setNode i node' rng).setNonce i none)) ∨
        (∃ abort, node.approved request = none ∧
          (node.processRequest request transport.rng).1 = .error abort ∧
          transport.round1 i request =
            (.error abort, transport.setNode i node' rng))) := by
  cases hnode : transport.nodes[i]? with
  | none => exact Or.inl ⟨rfl, by rw [round1, hnode]⟩
  | some node =>
      right
      refine ⟨node, _, (node.processRequest request transport.rng).2.2, rfl,
        rfl, ?_⟩
      obtain ⟨registry, -, hcases⟩ :=
        node.processRequest_cases request transport.rng
      rw [round1, hnode]
      rcases hcases with ⟨tx, happroved, heq⟩ | ⟨reason, happroved, heq⟩ |
        ⟨abort, happroved, -, heq⟩
      · exact Or.inl ⟨tx, happroved, by simp only [heq]⟩
      · exact Or.inr (Or.inl ⟨reason, happroved, by simp only [heq]⟩)
      · exact Or.inr (Or.inr ⟨abort, happroved, by rw [heq],
          by simp only [heq]⟩)

/-- Round 2 signs with the held nonce and the default key share, whatever the
message, and fails without a held nonce. -/
theorem round2_cases [Sha512] (transport : LocalTransport E P) (i : ℕ) (message : Bytes)
    (commitments : List (SigningCommitment P)) :
    (∃ nonce node, transport.held i = some nonce ∧
      transport.nodes[i]? = some node ∧
      transport.round2 i message commitments =
        .ok ⟨honestPartial node.keyShare nonce message commitments⟩) ∨
    (∃ abort, transport.held i = none ∧
      transport.round2 i message commitments = .error abort) := by
  cases hslot : transport.nonces[i]? with
  | none =>
      right
      refine ⟨.panic, by rw [held, hslot]; rfl, ?_⟩
      rw [round2, index, hslot]
      rfl
  | some slot =>
      cases slot with
      | none =>
          right
          refine ⟨.err (.invalidSignature "no nonce"),
            by rw [held, hslot]; rfl, ?_⟩
          rw [round2, index, hslot]
          rfl
      | some nonce =>
          left
          have hlt : i < transport.nodes.length := by
            rw [← transport.nonces_length]
            exact (List.getElem?_eq_some_iff.mp hslot).1
          have hnode := List.getElem?_eq_getElem hlt
          refine ⟨nonce, transport.nodes[i], by rw [held, hslot]; rfl, hnode, ?_⟩
          rw [round2, index, hslot, index, hnode]
          rfl

end Rounds

end LocalTransport

end CraftSec
