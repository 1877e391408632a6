/-
The nodes of the in-memory transport.  Which of them approve a request, and
what they answer where their programs stay quiet on it: neither panic nor
change their backends.  Pure programs do on every request, WASM programs where
their statements only read.
-/
import CraftSec.Client.Agreement
import CraftSec.Client.Honest
import CraftSec.Client.Nonces

namespace CraftSec

open History (Trace)

section Nodes

variable {E P : Type} [EdwardsGroup P] [ProgramExecutor E]

/-- The transaction that the node at position `i` approves. -/
def approvedAt (nodes : List (CraftSecNode E P)) (request : AttestationRequest)
    (i : ℕ) : Option Transaction :=
  nodes[i]?.bind fun node => node.approved request

/-- The positions of the nodes that approve, in increasing order. -/
def approving (nodes : List (CraftSecNode E P)) (request : AttestationRequest) :
    List ℕ :=
  (List.range nodes.length).filter fun i => (approvedAt nodes request i).isSome

/-- What the node at position `i` approves, with a placeholder where it
approves nothing. -/
def transactionAt (nodes : List (CraftSecNode E P))
    (request : AttestationRequest) (i : ℕ) : Transaction :=
  (approvedAt nodes request i).getD ⟨0, "", "", "", ⟨0⟩, "", 0, "", ""⟩

omit [EdwardsGroup P] in
theorem approvedAt_of_mem_approving {nodes : List (CraftSecNode E P)}
    {request : AttestationRequest} {i : ℕ}
    (hi : i ∈ approving nodes request) :
    i < nodes.length ∧
      approvedAt nodes request i = some (transactionAt nodes request i) := by
  obtain ⟨hrange, happroved⟩ := List.mem_filter.mp hi
  obtain ⟨tx, htx⟩ := Option.isSome_iff_exists.mp happroved
  refine ⟨List.mem_range.mp hrange, ?_⟩
  rw [transactionAt, htx]
  rfl

omit [EdwardsGroup P] in
/-- The first approval, as an actual answer. -/
theorem head?_approving {nodes : List (CraftSecNode E P)}
    {request : AttestationRequest} {tx : Transaction}
    (hfirst : some tx =
      (approving nodes request).head?.map (transactionAt nodes request)) :
    (approving nodes request).head?.bind (approvedAt nodes request) =
      some tx := by
  cases happroving : approving nodes request with
  | nil =>
      rw [happroving] at hfirst
      cases hfirst
  | cons first rest =>
      rw [happroving] at hfirst
      have hmem : first ∈ approving nodes request := by
        rw [happroving]
        exact List.mem_cons_self
      rw [hfirst]
      exact (approvedAt_of_mem_approving hmem).2

omit [ProgramExecutor E] in
/-- The default key share of the node at position `i`. -/
def keyShareAt (nodes : List (CraftSecNode E P)) (i : ℕ) : KeyShare P :=
  match nodes[i]? with
  | some node => node.keyShare
  | none => ⟨0, 0, 0, []⟩

omit [ProgramExecutor E] in
/-- The key share that the node at position `i` has for a program. -/
def programShareAt (nodes : List (CraftSecNode E P)) (programCid : String)
    (i : ℕ) : KeyShare P :=
  match nodes[i]? with
  | some node => node.getKeyShare programCid
  | none => ⟨0, 0, 0, []⟩

end Nodes

namespace LocalTransport

variable {E P : Type} [EdwardsGroup P] [ProgramExecutor E]

/-- Round 1 on one node leaves the other nodes' slots alone. -/
theorem held_round1_of_ne (transport : LocalTransport E P) {i j : ℕ}
    (hne : i ≠ j) (request : AttestationRequest) :
    (transport.round1 i request).2.held j = transport.held j := by
  rcases transport.round1_cases i request with
    ⟨-, heq⟩ | ⟨node, node', rng, -, -, hcases⟩
  · rw [heq]
  · rcases hcases with ⟨tx, -, heq⟩ | ⟨reason, -, heq⟩ | ⟨abort, -, -, heq⟩
    · rw [heq]
      exact held_setNonce_of_ne _ hne _
    · rw [heq]
      exact held_setNonce_of_ne _ hne _
    · rw [heq]
      rfl

/-- Round 1 on a node that approves: a nonce under the index of the program's
share is committed to and put into the node's slot. -/
theorem round1_of_approvedAt (transport : LocalTransport E P) {i : ℕ}
    {request : AttestationRequest} {tx : Transaction}
    (happroved : approvedAt transport.nodes request i = some tx) :
    ∃ nonce after, transport.round1 i request =
        (.ok ⟨.valid tx, some nonce.commitment⟩, after) ∧
      nonce.index =
        (programShareAt transport.nodes request.programCid i).index ∧
      after.held i = some nonce := by
  rcases transport.round1_cases i request with
    ⟨hnode, -⟩ | ⟨node, node', rng, hnode, rfl, hcases⟩
  · simp [approvedAt, hnode] at happroved
  · have hat : node.approved request = some tx := by
      simpa [approvedAt, hnode] using happroved
    have hi : i < (transport.setNode i
        (node.processRequest request transport.rng).2.1 rng).nodes.length := by
      rw [setNode_nodes, List.length_set]
      exact (List.getElem?_eq_some_iff.mp hnode).1
    rcases hcases with ⟨own, hown, heq⟩ | ⟨reason, hnone, -⟩ |
      ⟨abort, hnone, -, -⟩
    · rw [hat] at hown
      cases hown
      refine ⟨_, _, heq, ?_, held_setNonce_self _ hi _⟩
      rw [programShareAt, hnode]
      rfl
    · rw [hat] at hnone
      cases hnone
    · rw [hat] at hnone
      cases hnone

omit [ProgramExecutor E] in
/-- Round 2 on a node with a nonce signs with its default share. -/
theorem round2_of_held [Sha512] (transport : LocalTransport E P) {i : ℕ}
    {nonce : SigningNonce} (hheld : transport.held i = some nonce)
    (message : Bytes) (commitments : List (SigningCommitment P)) :
    transport.round2 i message commitments =
      .ok ⟨honestPartial (keyShareAt transport.nodes i) nonce message
        commitments⟩ := by
  rcases transport.round2_cases i message commitments with
    ⟨own, node, hown, hnode, heq⟩ | ⟨abort, hnone, -⟩
  · rw [hheld] at hown
    cases hown
    rw [heq, keyShareAt, hnode]
  · rw [hheld] at hnone
    cases hnone

end LocalTransport

variable {E P : Type} [ProgramExecutor E]

/-- Asked the request, the programs of the nodes do not panic and leave their
backends as they were. -/
structure QuietOn (nodes : List (CraftSecNode E P))
    (request : AttestationRequest) : Prop where
  keeps : ∀ node ∈ nodes,
    (ProgramExecutor.execute node.registry request).2 = node.registry
  survives : ∀ node ∈ nodes,
    (ProgramExecutor.execute node.registry request).1 ≠ Outcome.panic

theorem quietOn_of_pure [PureExecutor E] (nodes : List (CraftSecNode E P))
    (request : AttestationRequest) : QuietOn nodes request where
  keeps node _ := PureExecutor.execute_snd node.registry request
  survives node _ := PureExecutor.execute_ne_panic node.registry request

/-- Only the programs of the nodes matter. -/
theorem QuietOn.of_registries {nodes nodes' : List (CraftSecNode E P)}
    {request : AttestationRequest} (hquiet : QuietOn nodes request)
    (hregistries : nodes'.map CraftSecNode.registry =
      nodes.map CraftSecNode.registry) : QuietOn nodes' request := by
  have hsame : ∀ node ∈ nodes',
      ∃ old ∈ nodes, old.registry = node.registry := by
    intro node hnode
    have hmem : node.registry ∈ nodes.map CraftSecNode.registry := by
      rw [← hregistries]
      exact List.mem_map_of_mem hnode
    exact List.mem_map.mp hmem
  constructor
  · intro node hnode
    obtain ⟨old, hold, hregistry⟩ := hsame node hnode
    rw [← hregistry]
    exact hquiet.keeps old hold
  · intro node hnode
    obtain ⟨old, hold, hregistry⟩ := hsame node hnode
    rw [← hregistry]
    exact hquiet.survives old hold

namespace QuietOn

variable [EdwardsGroup P] {nodes : List (CraftSecNode E P)}
  {request : AttestationRequest}

/-- A request to a quiet node leaves it as it was and does not panic. -/
theorem processRequest (hquiet : QuietOn nodes request)
    {node : CraftSecNode E P} (hnode : node ∈ nodes) (rng : Rng) :
    (node.processRequest request rng).2.1 = node ∧
      (node.processRequest request rng).1 ≠ Outcome.panic := by
  obtain ⟨registry, hregistry, hcases⟩ := node.processRequest_cases request rng
  have hsame : registry = node.registry := by
    rcases hregistry with rfl | rfl
    · rfl
    · exact hquiet.keeps node hnode
  subst hsame
  rcases hcases with ⟨tx, -, heq⟩ | ⟨reason, -, heq⟩ | ⟨abort, -, hpanic, heq⟩
  all_goals
    rw [heq]
    refine ⟨rfl, ?_⟩
    intro habort
    cases habort
  exact hquiet.survives node hnode (hpanic rfl)

theorem round1_nodes (hquiet : QuietOn nodes request)
    {transport : LocalTransport E P} (hnodes : transport.nodes = nodes)
    (i : ℕ) : (transport.round1 i request).2.nodes = nodes := by
  rcases transport.round1_cases i request with
    ⟨-, heq⟩ | ⟨node, node', rng, hnode, rfl, hcases⟩
  · rw [heq]
    exact hnodes
  · rw [hnodes] at hnode
    have hsame : transport.nodes.set i
        (node.processRequest request transport.rng).2.1 = nodes := by
      obtain ⟨hi, hget⟩ := List.getElem?_eq_some_iff.mp hnode
      rw [(hquiet.processRequest (List.mem_of_getElem? hnode) _).1, ← hget,
        hnodes]
      exact List.set_getElem_self hi
    rcases hcases with ⟨tx, -, heq⟩ | ⟨reason, -, heq⟩ | ⟨abort, -, -, heq⟩
    all_goals
      rw [heq]
      exact hsame

variable [Sha512]

/-- A quiet node that approves nothing declines. -/
theorem declines (hquiet : QuietOn nodes request) {i : ℕ}
    (hi : i < nodes.length)
    (hnone : (approvedAt nodes request i).isSome = false) :
    Declines (fun transport : LocalTransport E P => transport.nodes = nodes)
      request i := by
  rintro transport rfl
  change (∃ error, (transport.round1 i request).1 = _) ∨
    (∃ reason commitment, (transport.round1 i request).1 = _)
  rcases transport.round1_cases i request with
    ⟨hnode, -⟩ | ⟨node, node', rng, hnode, -, hcases⟩
  · rw [List.getElem?_eq_none_iff] at hnode
    omega
  · have hrejected : node.approved request = none := by
      simpa [approvedAt, hnode] using hnone
    rcases hcases with ⟨tx, happroved, -⟩ | ⟨reason, -, heq⟩ |
      ⟨abort, -, hprocess, heq⟩
    · rw [hrejected] at happroved
      cases happroved
    · exact Or.inr ⟨reason, none, by rw [heq]⟩
    · left
      cases abort with
      | err error => exact ⟨error, by rw [heq]; rfl⟩
      | panic =>
          have hsurvives := (hquiet.processRequest
            (List.mem_of_getElem? hnode) transport.rng).2
          exact absurd hprocess hsurvives

/-- Quiet nodes that approve are honest, with the program's share in round 1
and the default share in round 2. -/
theorem honest (hquiet : QuietOn nodes request) {honest : ℕ → Bool}
    (hhonest : ∀ i, honest i = true →
      (approvedAt nodes request i).isSome = true) :
    HonestNodes (fun transport : LocalTransport E P => transport.nodes = nodes)
      LocalTransport.held request honest
      (fun i => (programShareAt nodes request.programCid i).index)
      (keyShareAt nodes) (transactionAt nodes request) where
  round1_inv transport i hnodes := hquiet.round1_nodes hnodes i
  round2_inv := by
    rintro transport i message commitments hnodes
    exact hnodes
  round1_honest := by
    rintro transport i rfl hi
    obtain ⟨tx, happroved⟩ := Option.isSome_iff_exists.mp (hhonest i hi)
    have htx : transactionAt transport.nodes request i = tx := by
      rw [transactionAt, happroved]
      rfl
    rw [htx]
    exact transport.round1_of_approvedAt happroved
  round1_frame := by
    rintro transport i j - - hne
    exact transport.held_round1_of_ne hne request
  round2_frame := fun _ _ _ _ _ _ _ => rfl
  round2_honest := by
    rintro transport i message commitments nonce rfl - hheld
    exact transport.round2_of_held hheld message commitments

variable [FloatFormat] [DecidableEq P]

/-- Too few approvals of quiet nodes are counted. -/
theorem attest_short {client : CraftSecClient (LocalTransport E P) P}
    (hquiet : QuietOn client.transport.nodes request)
    (hcount : client.nodeCount = client.transport.nodes.length)
    (hshort : (approving client.transport.nodes request).length <
      client.threshold.toNat) :
    ∃ after, client.attest request =
      (Outcome.err (.insufficientShares
        (approving client.transport.nodes request).length
        client.threshold.toNat), after) := by
  have hall := (hquiet.honest fun _ => id).attest_short client rfl
    (fun j hj hnone => hquiet.declines (hcount ▸ hj) hnone)
    (by rw [hcount]; exact hshort)
  rw [hcount] at hall
  exact hall

/-- With enough of them the recorded flow has two phases: nothing is signed
while approvals are collected, and then the first `threshold` nodes that approve
sign with their default shares. -/
theorem recorded_attest {client : CraftSecClient (LocalTransport E P) P}
    (hquiet : QuietOn client.transport.nodes request)
    (hcount : client.nodeCount = client.transport.nodes.length)
    (hpositive : 1 ≤ client.threshold.toNat)
    (henough : client.threshold.toNat ≤
      (approving client.transport.nodes request).length)
    {picked : List ℕ} (hpicked : (approving client.transport.nodes
      request).take client.threshold.toNat = picked) :
    ∃ (nonce : ℕ → SigningNonce) (message : Bytes)
        (middle : Trace (LocalTransport E P) (Event P)),
      let commitments : List (SigningCommitment P) :=
        picked.map fun j => (nonce j).commitment
      let partials := picked.map fun j =>
        honestPartial (keyShareAt client.transport.nodes j) (nonce j) message
          commitments
      let after := (client.recorded.attest request).2
      (∀ j ∈ picked, (nonce j).index = (programShareAt
        client.transport.nodes request.programCid j).index) ∧
      (∀ event ∈ middle.events, event.signed = none) ∧
      requestPartials message commitments picked middle =
        (.ok partials, after) ∧
      after.events = (answers message commitments picked partials).reverse ++
        middle.events := by
  have happroving : (List.range client.nodeCount).filter (fun i =>
      (approvedAt client.transport.nodes request i).isSome) =
      approving client.transport.nodes request := by
    rw [hcount]
    rfl
  obtain ⟨nonce, middle, after, first, -, hindex, hcollect, hpartials,
    hattest⟩ := (hquiet.honest fun _ => id).recorded.attest_eq client.recorded
      rfl hpositive (henough.trans_eq (congrArg List.length happroving.symm))
      (fun j hj hnone _ => (hquiet.declines (hcount ▸ hj) hnone).recorded)
      ((congrArg (List.take client.threshold.toNat) happroving).trans hpicked)
  obtain ⟨-, hsigners, -⟩ := collect_invariant
    (⟨rfl, rfl⟩ : CollectInvariant (P := P) ⟨[], none⟩
      client.recorded.transport.events) hcollect
  have hafter : (client.recorded.attest request).2 = after :=
    congrArg Prod.snd hattest
  rw [← hafter] at hpartials
  refine ⟨nonce, _, middle, hindex, ?_, hpartials,
    (requestPartials_log hpartials).2⟩
  intro event hevent
  cases hsigned : event.signed with
  | none => rfl
  | some i =>
      have hmem : i ∈ signers middle.events :=
        List.mem_filterMap.mpr ⟨_, List.mem_reverse.mpr hevent, hsigned⟩
      rw [hsigners] at hmem
      cases hmem

end QuietOn

end CraftSec
