/-
A deployment over its whole life.  Between attestations, programs are given
keys, frozen and migrated on single nodes, the shares are rotated and others use
the transport; what a client is told is what the service says.
-/
import CraftSec.Client.Quiet
import CraftSec.Client.Service

open scoped Polynomial

namespace CraftSec

/-- What an operation on a deployment is answered with. -/
inductive ServiceAnswer (P : Type) where
  | used (answer : ClientAnswer P)
  | maintained (outcome : Outcome Unit)

section Concrete

variable {E P : Type}

/-- Change node `i` through `transport.nodes[i]`. -/
def CraftSecClient.onNode (client : CraftSecClient (LocalTransport E P) P)
    (i : ℕ) (change : CraftSecNode E P → CraftSecNode E P) :
    ServiceAnswer P × CraftSecClient (LocalTransport E P) P :=
  match client.transport.nodes[i]? with
  | none => (.maintained Outcome.panic, client)
  | some node =>
      (.maintained (.ok ⟨⟩),
        { client with
          transport :=
            client.transport.setNode i (change node) client.transport.rng })

/-- An operation on an existing node is carried out. -/
theorem CraftSecClient.onNode_eq
    {client : CraftSecClient (LocalTransport E P) P} {i : ℕ}
    (hi : i < client.transport.nodes.length)
    (change : CraftSecNode E P → CraftSecNode E P) :
    client.onNode i change = (.maintained (.ok ⟨⟩),
      { client with
        transport := client.transport.setNode i
          (change client.transport.nodes[i]) client.transport.rng }) := by
  rw [CraftSecClient.onNode, List.getElem?_eq_getElem hi]

/-- Give every node its new default share. -/
def LocalTransport.install (transport : LocalTransport E P)
    (shares : List (KeyShare P)) : LocalTransport E P where
  nodes := transport.nodes.mapIdx fun i node =>
    { node with keyShare := shares.getD i node.keyShare }
  nonces := transport.nonces
  rng := transport.rng
  nonces_length := by rw [List.length_mapIdx, transport.nonces_length]

variable [EdwardsGroup P] [ProgramExecutor E] [Sha512] [DecidableEq P]
  [FloatFormat]

def ServiceOp.perform (client : CraftSecClient (LocalTransport E P) P) :
    ServiceOp P → ServiceAnswer P × CraftSecClient (LocalTransport E P) P
  | .use op =>
      let (answer, client) := op.perform client
      (.used answer, client)
  | .registerKey i programCid keyShare =>
      client.onNode i fun node => node.registerKey programCid keyShare
  | .freezeProgram i programCid =>
      client.onNode i fun node => node.freezeProgram programCid
  | .migrateProgram i oldCid newCid =>
      client.onNode i fun node => node.migrateProgram oldCid newCid
  | .rotate newConfig rng =>
      match rotateShares (client.transport.nodes.map CraftSecNode.keyShare)
          newConfig rng with
      | .error abort => (.maintained (.error abort), client)
      | .ok (shares, _) =>
          (.maintained (.ok ⟨⟩),
            { client with transport := client.transport.install shares })

/-- The operations that keep a deployment in order: nodes exist, a node is
given program shares of its own participant, and rotations are to thresholds
that the client's covers. -/
def ServiceOp.Proper (count threshold : ℕ) : ServiceOp P → Prop
  | .use _ => True
  | .registerKey i _ keyShare => i < count ∧ keyShare.index.toNat = i + 1
  | .freezeProgram i _ => i < count
  | .migrateProgram i _ _ => i < count
  | .rotate newConfig _ =>
      1 ≤ newConfig.threshold.toNat ∧ newConfig.threshold.toNat ≤ threshold

/-- The service that a client's nodes provide. -/
def CraftSecClient.service (client : CraftSecClient (LocalTransport E P) P) :
    Service where
  count := client.transport.nodes.length
  threshold := client.threshold.toNat
  verdict i request := client.transport.nodes[i]?.bind fun node =>
    verdict node.registry request
  frozen i := match client.transport.nodes[i]? with
    | some node => node.frozenPrograms
    | none => ∅

/-- What the client is told is what the service says: an attestation comes with
a signature that verifies under the deployment's key. -/
inductive Service.Explains (groupPublicKey : P) (threshold : ℕ) :
    ServiceAnswer P → ServiceVerdict → Prop where
  | attested (attested : AttestedTransaction P) :
      attested.groupPublicKey = groupPublicKey →
      attested.verify = .ok ⟨⟩ →
      Explains groupPublicKey threshold
        (.used (.attestation (.ok attested))) (.attested attested.transaction)
  | tooFew (approvals : ℕ) :
      Explains groupPublicKey threshold
        (.used (.attestation
          (Outcome.err (.insufficientShares approvals threshold))))
        (.tooFew approvals)
  | round (event : Event P) :
      Explains groupPublicKey threshold (.used (.round event)) .served
  | maintained :
      Explains groupPublicKey threshold (.maintained (.ok ⟨⟩)) .served

theorem Service.Explains.of_attested {groupPublicKey : P} {threshold : ℕ}
    {outcome : Outcome (AttestedTransaction P)} {tx : Transaction}
    (hexplains : Service.Explains groupPublicKey threshold
      (.used (.attestation outcome)) (.attested tx)) :
    ∃ attested, outcome = .ok attested ∧ attested.transaction = tx ∧
      attested.groupPublicKey = groupPublicKey ∧
      attested.verify = .ok ⟨⟩ := by
  cases hexplains with
  | attested attested hkey hverify => exact ⟨attested, rfl, rfl, hkey, hverify⟩

theorem Service.Explains.of_tooFew {groupPublicKey : P} {threshold : ℕ}
    {outcome : Outcome (AttestedTransaction P)} {approvals : ℕ}
    (hexplains : Service.Explains groupPublicKey threshold
      (.used (.attestation outcome)) (.tooFew approvals)) :
    outcome = Outcome.err (.insufficientShares approvals threshold) := by
  cases hexplains with
  | tooFew => rfl

end Concrete

section Invariant

variable {E P : Type} [EdwardsGroup P]

/-- A deployment in order: the default shares are those of all participants,
with the client's key and below its threshold, and each node has shares of its
own participant only. -/
structure CraftSecClient.InOrder
    (client : CraftSecClient (LocalTransport E P) P) : Prop where
  sharing : ∃ F : Scalar[X], F.degree < client.threshold.toNat ∧
    IsSharing F (client.transport.nodes.map CraftSecNode.keyShare) ∧
    client.groupPublicKey = basepointMul (F.eval 0)
  index_eq : ∀ node ∈ client.transport.nodes, ∀ programCid,
    (node.getKeyShare programCid).index = node.keyShare.index
  nodeCount : client.nodeCount = client.transport.nodes.length
  positive : 1 ≤ client.threshold.toNat
  nonempty : client.transport.nodes ≠ []

variable [ProgramExecutor E]

omit [EdwardsGroup P] in
/-- Node by node, the service approves what the node approves. -/
theorem approvedAt_eq_service (client : CraftSecClient (LocalTransport E P) P)
    (request : AttestationRequest) (i : ℕ) :
    approvedAt client.transport.nodes request i =
      client.service.approved request i := by
  rw [approvedAt, Service.approved, CraftSecClient.service]
  cases hnode : client.transport.nodes[i]? with
  | none => simp [hnode]
  | some node =>
      simp only [hnode, Option.bind_some, CraftSecNode.approved,
        CraftSecNode.isFrozen]
      rfl

omit [EdwardsGroup P] in
theorem approving_eq_approvers
    (client : CraftSecClient (LocalTransport E P) P)
    (request : AttestationRequest) :
    approving client.transport.nodes request =
      client.service.approvers request := by
  rw [approving, Service.approvers]
  apply List.filter_congr
  intro i _
  rw [approvedAt_eq_service]

namespace CraftSecClient.InOrder

variable {client : CraftSecClient (LocalTransport E P) P}

omit [ProgramExecutor E] in
/-- Node `i` holds the default share of participant `i + 1`. -/
theorem keyShareAt_index (hinOrder : client.InOrder) {i : ℕ}
    (hi : i < client.transport.nodes.length) :
    (keyShareAt client.transport.nodes i).index.toNat = i + 1 ∧
      keyShareAt client.transport.nodes i ∈
        client.transport.nodes.map CraftSecNode.keyShare := by
  obtain ⟨F, -, hsharing, -⟩ := hinOrder.sharing
  have hshare := hsharing.index_eq i (by simpa using hi)
  rw [List.getElem_map] at hshare
  rw [keyShareAt, List.getElem?_eq_getElem hi]
  exact ⟨hshare, List.mem_map_of_mem (List.getElem_mem hi)⟩

omit [ProgramExecutor E] in
/-- A node's share for a program has the index of its default share. -/
theorem programShareAt_index (hinOrder : client.InOrder) (programCid : String)
    (i : ℕ) :
    (programShareAt client.transport.nodes programCid i).index =
      (keyShareAt client.transport.nodes i).index := by
  rw [programShareAt, keyShareAt]
  cases hnode : client.transport.nodes[i]? with
  | none => rfl
  | some node =>
      exact hinOrder.index_eq node (List.mem_of_getElem? hnode) programCid

variable [Sha512] [DecidableEq P] [FloatFormat]

/-- What an attestation is answered with where the programs stay quiet. -/
theorem attest (hinOrder : client.InOrder)
    {request : AttestationRequest}
    (hquiet : QuietOn client.transport.nodes request) :
    Service.Explains client.groupPublicKey client.threshold.toNat
      (.used (.attestation (client.attest request).1))
      (client.service.attest request) := by
  obtain ⟨F, hdegree, hsharing, hkey⟩ := hinOrder.sharing
  have happrovers := approving_eq_approvers client request
  by_cases henough : client.threshold.toNat ≤
      (approving client.transport.nodes request).length
  · have hmember : ∀ j ∈ (approving client.transport.nodes request).take
        client.threshold.toNat, j < client.transport.nodes.length :=
      fun j hj =>
        (approvedAt_of_mem_approving (List.mem_of_mem_take hj)).1
    have hdistinct : (((approving client.transport.nodes request).take
        client.threshold.toNat).map fun j =>
          (keyShareAt client.transport.nodes j).index).Nodup := by
      apply List.Nodup.map_on
      · intro j hj k hk heq
        have hj' := (hinOrder.keyShareAt_index (hmember j hj)).1
        have hk' := (hinOrder.keyShareAt_index (hmember k hk)).1
        rw [heq] at hj'
        omega
      · exact (List.nodup_range.filter _).sublist (List.take_sublist _ _)
    obtain ⟨attested, after, -, -, hattest, hfirst, hverify, -⟩ :=
      (hquiet.honest fun _ => id).attest
        client rfl hinOrder.positive (by rw [hinOrder.nodeCount]; exact henough)
        (fun j hj hnone _ =>
          hquiet.declines (hinOrder.nodeCount ▸ hj) hnone)
        (by rw [hinOrder.nodeCount]; rfl) hdegree hkey
        (fun j _ => hinOrder.programShareAt_index request.programCid j)
        (fun j _ => SignsAlike.refl (keyShareAt client.transport.nodes j))
        (fun j hj =>
          have hshare := (hinOrder.keyShareAt_index (hmember j hj)).2
          ⟨hsharing.secret_eq_eval hshare,
            hsharing.groupPublicKey_eq _ hshare⟩)
        hdistinct
    have hgroup : attested.groupPublicKey = client.groupPublicKey := by
      obtain ⟨-, -, -, -, -, -, -, -, -, -, hgroup, -⟩ := attest_eq_ok hattest
      exact hgroup
    rw [List.head?_take, if_neg (by have := hinOrder.positive; omega)] at hfirst
    have htransaction := head?_approving hfirst
    have hspec : client.service.attest request =
        .attested attested.transaction := by
      apply Service.attest_of_enough
      · rw [← happrovers]
        exact henough
      · rw [← happrovers, ← htransaction]
        congr 1
        funext i
        exact (approvedAt_eq_service client request i).symm
    rw [hattest, hspec]
    exact .attested attested hgroup hverify
  · obtain ⟨after, hattest⟩ := hquiet.attest_short hinOrder.nodeCount
      (Nat.lt_of_not_le henough)
    rw [hattest, Service.attest_of_few (by
      rw [← happrovers]
      exact Nat.lt_of_not_le henough), ← happrovers]
    exact .tooFew _

omit [ProgramExecutor E] [Sha512] [DecidableEq P] [FloatFormat] in
/-- The order is one of the nodes, not of the nonces over them. -/
theorem of_nodes (hinOrder : client.InOrder) {transport : LocalTransport E P}
    (hnodes : transport.nodes = client.transport.nodes) :
    CraftSecClient.InOrder { client with transport := transport } where
  sharing := by
    rw [hnodes]
    exact hinOrder.sharing
  index_eq := by
    rw [hnodes]
    exact hinOrder.index_eq
  nodeCount := by
    rw [hnodes]
    exact hinOrder.nodeCount
  positive := hinOrder.positive
  nonempty := by
    rw [hnodes]
    exact hinOrder.nonempty

omit [ProgramExecutor E] [Sha512] [DecidableEq P] [FloatFormat] in
/-- A node may be changed as long as it keeps its default share and its other
shares keep that one's index. -/
theorem setNode (hinOrder : client.InOrder) {i : ℕ}
    {node changed : CraftSecNode E P}
    (hnode : client.transport.nodes[i]? = some node)
    (hshare : changed.keyShare = node.keyShare)
    (hindex : ∀ programCid, (changed.getKeyShare programCid).index =
      changed.keyShare.index) (rng : Rng) :
    CraftSecClient.InOrder
      { client with transport := client.transport.setNode i changed rng } where
  sharing := by
    have hmap : (client.transport.nodes.set i changed).map
        CraftSecNode.keyShare =
        client.transport.nodes.map CraftSecNode.keyShare := by
      obtain ⟨hi, rfl⟩ := List.getElem?_eq_some_iff.mp hnode
      rw [List.map_set, hshare, ← List.map_set, List.set_getElem_self]
    simp only [LocalTransport.setNode_nodes, hmap]
    exact hinOrder.sharing
  index_eq := by
    intro other hother
    rcases List.mem_or_eq_of_mem_set hother with hother | rfl
    · exact hinOrder.index_eq other hother
    · exact hindex
  nodeCount := by
    rw [LocalTransport.setNode_nodes, List.length_set]
    exact hinOrder.nodeCount
  positive := hinOrder.positive
  nonempty := by
    rw [LocalTransport.setNode_nodes, ← List.length_pos_iff, List.length_set,
      List.length_pos_iff]
    exact hinOrder.nonempty

end CraftSecClient.InOrder

omit [EdwardsGroup P] in
/-- A change to a node that keeps its programs is a change to what it has
frozen. -/
theorem service_setNode (client : CraftSecClient (LocalTransport E P) P)
    {i : ℕ} {node changed : CraftSecNode E P}
    (hnode : client.transport.nodes[i]? = some node)
    (hregistry : changed.registry = node.registry) (rng : Rng) :
    CraftSecClient.service
        { client with transport := client.transport.setNode i changed rng } =
      { client.service with
        frozen := Function.update client.service.frozen i
          changed.frozenPrograms } := by
  have hi := (List.getElem?_eq_some_iff.mp hnode).1
  rw [CraftSecClient.service, CraftSecClient.service]
  simp only [LocalTransport.setNode_nodes, List.length_set, Service.mk.injEq,
    true_and]
  constructor
  · funext j request
    by_cases hij : i = j
    · subst hij
      rw [List.getElem?_set_self hi, hnode, Option.bind_some, Option.bind_some,
        hregistry]
    · rw [List.getElem?_set_ne hij]
  · funext j
    by_cases hij : i = j
    · subst hij
      rw [List.getElem?_set_self hi, Function.update_self]
    · rw [List.getElem?_set_ne hij, Function.update_of_ne (Ne.symm hij)]

section Steps

variable [Sha512] [DecidableEq P] [FloatFormat]
  {client : CraftSecClient (LocalTransport E P) P}

/-- Using the transport leaves quiet nodes as they are. -/
theorem ClientOp.perform_nodes
    (client : CraftSecClient (LocalTransport E P) P) (op : ClientOp P)
    (hquiet : ∀ request, (ServiceOp.use op).asks = some request →
      QuietOn client.transport.nodes request) :
    ∃ transport,
      (op.perform client).2 = { client with transport := transport } ∧
      transport.nodes = client.transport.nodes := by
  cases op with
  | attest request =>
      refine ⟨_, rfl, ?_⟩
      apply attest_keeps (I := fun transport : LocalTransport E P =>
        transport.nodes = client.transport.nodes)
      · intro transport i hnodes
        exact (hquiet request rfl).round1_nodes hnodes i
      · intro transport i message commitments hnodes
        exact hnodes
      · rfl
  | round call =>
      cases call with
      | round1 i request =>
          exact ⟨_, rfl, (hquiet request rfl).round1_nodes rfl i⟩
      | round2 i message commitments => exact ⟨_, rfl, rfl⟩

/-- The client provides the service with its nodes in order, and certain
requests are no trouble to them. -/
structure Provides (Asked : AttestationRequest → Prop) (key : P)
    (count threshold : ℕ)
    (client : CraftSecClient (LocalTransport E P) P) (service : Service) :
    Prop where
  inOrder : client.InOrder
  key_eq : client.groupPublicKey = key
  count_eq : client.transport.nodes.length = count
  threshold_eq : client.threshold.toNat = threshold
  service_eq : client.service = service
  quiet : ∀ request, Asked request → QuietOn client.transport.nodes request

variable {Asked : AttestationRequest → Prop} {key : P} {count threshold : ℕ}
  {service : Service}

omit [Sha512] [DecidableEq P] [FloatFormat] in
theorem Provides.of_nodes
    (hserves : Provides Asked key count threshold client service)
    {transport : LocalTransport E P}
    (hnodes : transport.nodes = client.transport.nodes) :
    Provides Asked key count threshold { client with transport := transport }
      service where
  inOrder := hserves.inOrder.of_nodes hnodes
  key_eq := hserves.key_eq
  count_eq := by
    rw [hnodes]
    exact hserves.count_eq
  threshold_eq := hserves.threshold_eq
  service_eq := by
    rw [← hserves.service_eq, CraftSecClient.service, CraftSecClient.service,
      hnodes]
  quiet := by
    simp only [hnodes]
    exact hserves.quiet

/-- A change of one node that keeps its programs and its default share, and
gives it no share of another participant. -/
structure KeepsParticipant
    (change : CraftSecNode E P → CraftSecNode E P) (node : CraftSecNode E P) :
    Prop where
  keyShare_eq : (change node).keyShare = node.keyShare
  registry_eq : (change node).registry = node.registry
  index_eq : ∀ programCid, ((change node).getKeyShare programCid).index =
    node.keyShare.index

omit [EdwardsGroup P] [ProgramExecutor E] [Sha512] [DecidableEq P]
  [FloatFormat] in
theorem keepsParticipant_registerKey {node : CraftSecNode E P}
    (programCid : String)
    (hindex : ∀ programCid, (node.getKeyShare programCid).index =
      node.keyShare.index) {keyShare : KeyShare P}
    (hown : keyShare.index = node.keyShare.index) :
    KeepsParticipant (fun node => node.registerKey programCid keyShare)
      node where
  keyShare_eq := rfl
  registry_eq := rfl
  index_eq := by
    intro other
    by_cases hother : other = programCid
    · simp [CraftSecNode.registerKey, CraftSecNode.getKeyShare, hother, hown]
    · have hkept := hindex other
      simpa [CraftSecNode.registerKey, CraftSecNode.getKeyShare, hother]
        using hkept

omit [EdwardsGroup P] [ProgramExecutor E] [Sha512] [DecidableEq P]
  [FloatFormat] in
theorem keepsParticipant_freezeProgram {node : CraftSecNode E P}
    (programCid : String)
    (hindex : ∀ programCid, (node.getKeyShare programCid).index =
      node.keyShare.index) :
    KeepsParticipant (fun node => node.freezeProgram programCid) node where
  keyShare_eq := rfl
  registry_eq := rfl
  index_eq := hindex

omit [EdwardsGroup P] [ProgramExecutor E] [Sha512] [DecidableEq P]
  [FloatFormat] in
/-- A migration registers a share that the node already has. -/
theorem keepsParticipant_migrateProgram {node : CraftSecNode E P}
    (oldCid newCid : String)
    (hindex : ∀ programCid, (node.getKeyShare programCid).index =
      node.keyShare.index) :
    KeepsParticipant (fun node => node.migrateProgram oldCid newCid) node where
  keyShare_eq := rfl
  registry_eq := rfl
  index_eq :=
    (keepsParticipant_registerKey newCid hindex (hindex oldCid)).index_eq

section Participants

variable {i : ℕ} {node : CraftSecNode E P}

omit [Sha512] [DecidableEq P] [FloatFormat] in
theorem Provides.index_eq
    (hserves : Provides Asked key count threshold client service)
    (hnode : client.transport.nodes[i]? = some node) (programCid : String) :
    (node.getKeyShare programCid).index = node.keyShare.index :=
  hserves.inOrder.index_eq node (List.mem_of_getElem? hnode) programCid

omit [Sha512] [DecidableEq P] [FloatFormat] in
theorem Provides.index_eq_of_toNat
    (hserves : Provides Asked key count threshold client service)
    (hnode : client.transport.nodes[i]? = some node) {keyShare : KeyShare P}
    (hindex : keyShare.index.toNat = i + 1) :
    keyShare.index = node.keyShare.index := by
  have hdefault := (hserves.inOrder.keyShareAt_index
    (List.getElem?_eq_some_iff.mp hnode).1).1
  rw [keyShareAt, hnode] at hdefault
  apply UInt32.toNat_inj.mp
  rw [hindex]
  exact hdefault.symm

omit [Sha512] [DecidableEq P] [FloatFormat] in
theorem Provides.frozen_eq
    (hserves : Provides Asked key count threshold client service)
    (hnode : client.transport.nodes[i]? = some node) :
    service.frozen i = node.frozenPrograms := by
  rw [← hserves.service_eq, CraftSecClient.service]
  simp only [hnode]

end Participants

omit [Sha512] [DecidableEq P] [FloatFormat] in
theorem Provides.onNode
    (hserves : Provides Asked key count threshold client service)
    {i : ℕ} (hi : i < count) {change : CraftSecNode E P → CraftSecNode E P}
    (hkeeps : ∀ node, client.transport.nodes[i]? = some node →
      KeepsParticipant change node) :
    (client.onNode i change).1 = .maintained (.ok ⟨⟩) ∧
      ∃ node, client.transport.nodes[i]? = some node ∧
        Provides Asked key count threshold (client.onNode i change).2
          { service with
            frozen := Function.update service.frozen i
              (change node).frozenPrograms } := by
  have hlt : i < client.transport.nodes.length := by
    rw [hserves.count_eq]
    exact hi
  have hnode := List.getElem?_eq_getElem hlt
  have hkeep := hkeeps _ hnode
  rw [CraftSecClient.onNode_eq hlt]
  refine ⟨rfl, _, hnode, ?_⟩
  constructor
  · apply hserves.inOrder.setNode hnode hkeep.keyShare_eq
    intro programCid
    rw [hkeep.index_eq, hkeep.keyShare_eq]
  · exact hserves.key_eq
  · rw [LocalTransport.setNode_nodes, List.length_set]
    exact hserves.count_eq
  · exact hserves.threshold_eq
  · rw [service_setNode client hnode hkeep.registry_eq, hserves.service_eq]
  · intro request hasked
    apply (hserves.quiet request hasked).of_registries
    rw [LocalTransport.setNode_nodes, List.map_set, hkeep.registry_eq,
      ← List.map_set, List.set_getElem_self]

omit [EdwardsGroup P] [ProgramExecutor E] [Sha512] [DecidableEq P]
  [FloatFormat] in
/-- What a node is after new shares were installed. -/
theorem getElem?_install (transport : LocalTransport E P)
    (shares : List (KeyShare P)) (i : ℕ) :
    (transport.install shares).nodes[i]? = transport.nodes[i]?.map fun node =>
      { node with keyShare := shares.getD i node.keyShare } :=
  List.getElem?_mapIdx

omit [Sha512] [DecidableEq P] [FloatFormat] in
/-- Shares of another polynomial with the same key, for the same participants,
can take over. -/
theorem Provides.install
    (hserves : Provides Asked key count threshold client service)
    {F : Scalar[X]} {shares : List (KeyShare P)}
    (hlength : shares.length = count) (hsharing : IsSharing F shares)
    (hdegree : F.degree < threshold) (hkey : key = basepointMul (F.eval 0)) :
    Provides Asked key count threshold
      { client with transport := client.transport.install shares } service where
  inOrder := by
    have hnodes : (client.transport.install shares).nodes.length = count := by
      rw [LocalTransport.install, List.length_mapIdx]
      exact hserves.count_eq
    have hmap : (client.transport.install shares).nodes.map
        CraftSecNode.keyShare = shares := by
      apply List.ext_getElem?
      intro i
      rw [List.getElem?_map, getElem?_install]
      by_cases hi : i < count
      · have hi' : i < client.transport.nodes.length := by
          rw [hserves.count_eq]
          exact hi
        have hi'' : i < shares.length := by
          rw [hlength]
          exact hi
        rw [List.getElem?_eq_getElem hi', List.getElem?_eq_getElem hi'']
        simp [hi'']
      · have hi' : client.transport.nodes.length ≤ i := by
          rw [hserves.count_eq]
          omega
        have hi'' : shares.length ≤ i := by omega
        rw [List.getElem?_eq_none hi', List.getElem?_eq_none hi'']
        rfl
    constructor
    · refine ⟨F, ?_, ?_, ?_⟩
      · simp only [hserves.threshold_eq]
        exact hdegree
      · rw [hmap]
        exact hsharing
      · simp only [hserves.key_eq]
        exact hkey
    · intro node hmem programCid
      obtain ⟨i, hi⟩ := List.mem_iff_getElem?.mp hmem
      rw [getElem?_install, Option.map_eq_some_iff] at hi
      obtain ⟨old, hold, rfl⟩ := hi
      have hlt := (List.getElem?_eq_some_iff.mp hold).1
      have hlt' : i < shares.length := by
        rw [hlength, ← hserves.count_eq]
        exact hlt
      cases hprogram : old.keyShares programCid with
      | none => simp [CraftSecNode.getKeyShare, hprogram]
      | some programShare =>
          -- the registered share stays, and so does its participant
          have hnew := hsharing.index_eq i hlt'
          have hdefault := (hserves.inOrder.keyShareAt_index hlt).1
          have hown := hserves.inOrder.index_eq old
            (List.mem_of_getElem? hold) programCid
          rw [keyShareAt, hold] at hdefault
          simp only [CraftSecNode.getKeyShare, hprogram, Option.getD_some,
            List.getD_eq_getElem?_getD, List.getElem?_eq_getElem hlt'] at hown ⊢
          apply UInt32.toNat_inj.mp
          rw [hown, hnew]
          exact hdefault
    · rw [hnodes, ← hserves.count_eq]
      exact hserves.inOrder.nodeCount
    · exact hserves.inOrder.positive
    · rw [← List.length_pos_iff, hnodes, ← hserves.count_eq,
        List.length_pos_iff]
      exact hserves.inOrder.nonempty
  key_eq := hserves.key_eq
  count_eq := by
    rw [LocalTransport.install, List.length_mapIdx]
    exact hserves.count_eq
  threshold_eq := hserves.threshold_eq
  service_eq := by
    rw [← hserves.service_eq, CraftSecClient.service, CraftSecClient.service,
      Service.mk.injEq]
    refine ⟨?_, rfl, ?_, ?_⟩
    · rw [LocalTransport.install, List.length_mapIdx]
    · funext i request
      rw [getElem?_install]
      cases client.transport.nodes[i]? with
      | none => rfl
      | some node => rfl
    · funext i
      rw [getElem?_install]
      cases client.transport.nodes[i]? with
      | none => rfl
      | some node => rfl
  quiet := by
    intro request hasked
    apply (hserves.quiet request hasked).of_registries
    apply List.ext_getElem?
    intro i
    rw [List.getElem?_map, List.getElem?_map, getElem?_install, Option.map_map]
    rfl

/-- The step lemma: a proper operation keeps the deployment in order, and its
answer is explained by the service. -/
theorem Provides.perform
    (hserves : Provides Asked key count threshold client service)
    {op : ServiceOp P} (hproper : op.Proper count threshold)
    (hasks : ∀ request, op.asks = some request → Asked request) :
    Service.Explains key threshold (op.perform client).1
        (service.serve op).1 ∧
      Provides Asked key count threshold (op.perform client).2
        (service.serve op).2 := by
  cases op with
  | use op =>
      obtain ⟨transport, hclient, hnodes⟩ := ClientOp.perform_nodes client op
        fun request hrequest => hserves.quiet request (hasks request hrequest)
      have hnext : Provides Asked key count threshold (op.perform client).2
          service := by
        rw [hclient]
        exact hserves.of_nodes hnodes
      cases op with
      | attest request =>
          have hattest := hserves.inOrder.attest
            (hserves.quiet request (hasks request rfl))
          rw [hserves.key_eq, hserves.threshold_eq, hserves.service_eq]
            at hattest
          exact ⟨hattest, hnext⟩
      | round call => exact ⟨.round _, hnext⟩
  | registerKey i programCid keyShare =>
      obtain ⟨hi, hindex⟩ := hproper
      obtain ⟨hanswer, node, hnode, hnext⟩ := hserves.onNode hi
        fun node hnode => keepsParticipant_registerKey programCid
          (hserves.index_eq hnode)
          (hserves.index_eq_of_toNat hnode hindex)
      rw [CraftSecNode.registerKey, ← hserves.frozen_eq hnode,
        Function.update_eq_self] at hnext
      change Service.Explains key threshold (client.onNode i _).1 _ ∧ _
      rw [hanswer]
      exact ⟨.maintained, hnext⟩
  | freezeProgram i programCid =>
      obtain ⟨hanswer, node, hnode, hnext⟩ := hserves.onNode hproper
        fun node hnode => keepsParticipant_freezeProgram programCid
          (hserves.index_eq hnode)
      rw [CraftSecNode.freezeProgram, ← hserves.frozen_eq hnode] at hnext
      change Service.Explains key threshold (client.onNode i _).1 _ ∧ _
      rw [hanswer]
      exact ⟨.maintained, hnext⟩
  | migrateProgram i oldCid newCid =>
      obtain ⟨hanswer, node, hnode, hnext⟩ := hserves.onNode hproper
        fun node hnode => keepsParticipant_migrateProgram oldCid newCid
          (hserves.index_eq hnode)
      rw [CraftSecNode.migrateProgram, CraftSecNode.freezeProgram,
        CraftSecNode.registerKey, ← hserves.frozen_eq hnode] at hnext
      change Service.Explains key threshold (client.onNode i _).1 _ ∧ _
      rw [hanswer]
      exact ⟨.maintained, hnext⟩
  | rotate newConfig rng =>
      obtain ⟨hpositive, hcovered⟩ := hproper
      obtain ⟨F, hdegree, hsharing, hkey⟩ := hserves.inOrder.sharing
      rw [hserves.threshold_eq] at hdegree
      rw [hserves.key_eq] at hkey
      obtain ⟨F', shares, rng', hrotate, hlength, hsharing', hzero, hsub⟩ :=
        hsharing.rotateShares (by simp [hserves.inOrder.nonempty]) hpositive rng
      have hdegree' : F'.degree < threshold := by
        have hmax := degree_lt_max_of_sub hdegree hsub
        rwa [Nat.max_eq_left hcovered] at hmax
      have hperform : (ServiceOp.rotate newConfig rng).perform client =
          (.maintained (.ok ⟨⟩),
            { client with transport := client.transport.install shares }) := by
        rw [ServiceOp.perform, hrotate]
      rw [hperform]
      refine ⟨.maintained, hserves.install ?_ hsharing' hdegree' ?_⟩
      · rw [hlength, List.length_map, hserves.count_eq]
      · rw [hzero]
        exact hkey

theorem serves_refines : Simulation.Refines ServiceOp.perform Service.serve
    (Provides Asked key count threshold (E := E)) (Service.Explains key threshold)
    (fun op : ServiceOp P => op.Proper count threshold ∧
      ∀ request, op.asks = some request → Asked request) where
  answer hserves hallowed := (hserves.perform hallowed.1 hallowed.2).1
  next hserves hallowed := (hserves.perform hallowed.1 hallowed.2).2

omit [Sha512] [DecidableEq P] [FloatFormat] in
theorem CraftSecClient.InOrder.serves (hinOrder : client.InOrder)
    (hquiet : ∀ request, Asked request →
      QuietOn client.transport.nodes request) :
    Provides Asked client.groupPublicKey client.transport.nodes.length
      client.threshold.toNat client client.service :=
  ⟨hinOrder, rfl, rfl, rfl, rfl, hquiet⟩

/-- Over the whole life of a deployment, every answer a client gets is the
service's: a request is attested exactly when enough nodes that have not frozen
its program approve it, with the first approved transaction and a signature
under the deployment's first key; otherwise the error counts the approvals. -/
theorem service_explains_answers (hinOrder : client.InOrder)
    {ops : List (ServiceOp P)}
    (hproper : ∀ op ∈ ops, op.Proper client.transport.nodes.length
      client.threshold.toNat)
    (hquiet : ∀ request ∈ ops.filterMap ServiceOp.asks,
      QuietOn client.transport.nodes request) :
    List.Forall₂
      (Service.Explains client.groupPublicKey client.threshold.toNat)
      (Simulation.answers ServiceOp.perform client ops).1
      (Simulation.answers Service.serve client.service ops).1 :=
  (serves_refines.answers
    (fun op hop => ⟨hproper op hop, fun _ hasks =>
      List.mem_filterMap.mpr ⟨op, hop, hasks⟩⟩)
    (hinOrder.serves hquiet)).1

/-- How a request is decided that some of the nodes approve: by what is good if
they are enough, and otherwise by their count. -/
inductive Decided {T : Type} (threshold approvals : ℕ)
    (Good : AttestedTransaction P → Prop) :
    Outcome (AttestedTransaction P) × T → Prop where
  | attested (attested : AttestedTransaction P) (next : T) :
      threshold ≤ approvals → Good attested →
      Decided threshold approvals Good (.ok attested, next)
  | tooFew (next : T) :
      approvals < threshold →
      Decided threshold approvals Good
        (Outcome.err (.insufficientShares approvals threshold), next)

omit [EdwardsGroup P] [ProgramExecutor E] [Sha512] [DecidableEq P]
  [FloatFormat] in
/-- Approvals decide whether there is an attestation. -/
theorem Decided.attested_iff {T : Type} {threshold approvals : ℕ}
    {Good : AttestedTransaction P → Prop}
    {result : Outcome (AttestedTransaction P) × T}
    (hdecided : Decided threshold approvals Good result) :
    ((∃ attested next, result = (.ok attested, next)) ↔
      threshold ≤ approvals) ∧
    (∀ attested next, result = (.ok attested, next) → Good attested) ∧
    (approvals < threshold →
      ∃ next, result =
        (Outcome.err (.insufficientShares approvals threshold), next)) := by
  cases hdecided with
  | attested attested next henough hgood =>
      refine ⟨iff_of_true ⟨attested, next, rfl⟩ henough, ?_, ?_⟩
      · intro attested' next' hresult
        cases hresult
        exact hgood
      · intro hfew
        omega
  | tooFew next hfew =>
      refine ⟨iff_of_false ?_ (Nat.not_le_of_lt hfew), ?_,
        fun _ => ⟨next, rfl⟩⟩
      · rintro ⟨attested, next', hresult⟩
        cases hresult
      · intro attested next' hresult
        cases hresult

/-- A request after any operations is decided by the nodes that remain. -/
theorem CraftSecClient.InOrder.attest_after_run (hinOrder : client.InOrder)
    {ops : List (ServiceOp P)}
    (hproper : ∀ op ∈ ops, op.Proper client.transport.nodes.length
      client.threshold.toNat) (request : AttestationRequest)
    (hquiet : ∀ asked ∈ request :: ops.filterMap ServiceOp.asks,
      QuietOn client.transport.nodes asked) :
    Decided client.threshold.toNat
      (client.service.remaining ops request).length
      (fun attested =>
        (client.service.remaining ops request).head?.bind
            (client.service.approved request) = some attested.transaction ∧
          attested.groupPublicKey = client.groupPublicKey ∧
          attested.verify = .ok ⟨⟩)
      ((Simulation.answers ServiceOp.perform client ops).2.attest
        request) := by
  obtain ⟨-, hserves⟩ := serves_refines.answers
    (fun op hop => ⟨hproper op hop, fun _ hasks => List.mem_cons_of_mem _
      (List.mem_filterMap.mpr ⟨op, hop, hasks⟩)⟩) (hinOrder.serves hquiet)
  have hexplains := hserves.inOrder.attest
    (hserves.quiet request List.mem_cons_self)
  rw [hserves.key_eq, hserves.threshold_eq, hserves.service_eq] at hexplains
  have happrovers := client.service.approvers_run ops request
  obtain ⟨-, hthreshold, -⟩ := client.service.serve_run ops
  by_cases henough : client.threshold.toNat ≤
      (client.service.remaining ops request).length
  · obtain ⟨first, tx, hfirst, hat, hattest⟩ := Service.exists_attested
      (Simulation.answers Service.serve client.service ops).2 request
      (hthreshold ▸ hinOrder.positive)
      (by rw [hthreshold, happrovers]; exact henough)
    rw [happrovers] at hfirst
    rw [hattest] at hexplains
    obtain ⟨attested, hok, htransaction, hkey, hverify⟩ :=
      hexplains.of_attested
    have hunapproved : client.service.approved request first = some tx := by
      rw [Service.approved_run] at hat
      split at hat
      next => cases hat
      next => exact hat
    rw [← Prod.eta (CraftSecClient.attest _ request), hok]
    refine .attested attested _ henough ⟨?_, hkey, hverify⟩
    rw [hfirst, htransaction]
    exact hunapproved
  · have hfew := Nat.lt_of_not_le henough
    rw [Service.attest_of_few (by rw [hthreshold, happrovers]; exact hfew),
      happrovers] at hexplains
    rw [← Prod.eta (CraftSecClient.attest _ request), hexplains.of_tooFew]
    exact .tooFew _ hfew

/-- After any proper operations a request is attested if and only if enough of
the nodes that approved it at first were not made to freeze its program since:
which of these operations were keys, migrations, rotations or other calls makes
no difference, and nothing undoes a freeze.  The signature verifies under the
first key. -/
theorem attested_after_run_iff (hinOrder : client.InOrder)
    {ops : List (ServiceOp P)}
    (hproper : ∀ op ∈ ops, op.Proper client.transport.nodes.length
      client.threshold.toNat) (request : AttestationRequest)
    (hquiet : ∀ asked ∈ request :: ops.filterMap ServiceOp.asks,
      QuietOn client.transport.nodes asked) :
    let after := (Simulation.answers ServiceOp.perform client ops).2
    let remaining := client.service.remaining ops request
    ((∃ attested next, after.attest request = (.ok attested, next)) ↔
      client.threshold.toNat ≤ remaining.length) ∧
    (∀ attested next, after.attest request = (.ok attested, next) →
      remaining.head?.bind (client.service.approved request) =
          some attested.transaction ∧
        attested.groupPublicKey = client.groupPublicKey ∧
        attested.verify = .ok ⟨⟩) ∧
    (remaining.length < client.threshold.toNat →
      ∃ next, after.attest request =
        (Outcome.err (.insufficientShares remaining.length
          client.threshold.toNat), next)) :=
  (hinOrder.attest_after_run hproper request hquiet).attested_iff

end Steps

end Invariant

section Samples

/-- Three nodes that approve a transfer, with shares of `3 + 3 * x`. -/
def deployedClient :
    CraftSecClient (LocalTransport ProgramRegistry ReferencePoint)
      ReferencePoint where
  transport := .new ((List.range' 1 3).map fun i =>
    approvingNode (linearShare 3 3 i) sampleTransaction) unitRng
  groupPublicKey := basepointMul (3 : ℕ)
  threshold := 2
  nodeCount := 3

theorem inOrder_deployedClient : deployedClient.InOrder where
  sharing := by
    refine ⟨linearPolynomial 3 3, degree_linearPolynomial_lt 3 3,
      isSharing_linearShares 3 3, ?_⟩
    rw [eval_zero_linearPolynomial]
    rfl
  index_eq := by
    intro node hnode programCid
    obtain ⟨i, -, rfl⟩ := List.mem_map.mp hnode
    rfl
  nodeCount := rfl
  positive := by decide
  nonempty := List.cons_ne_nil _ _

/-- A rotation, a program key for the first node and a freeze at the second. -/
def upkeep : List (ServiceOp ReferencePoint) :=
  [.rotate ⟨2, 3⟩ unitRng,
    .registerKey 0 "Qm_transfer" (linearShare 5 1 1),
    .freezeProgram 1 "Qm_transfer"]

theorem proper_upkeep : ∀ op ∈ upkeep ++
    [.use (.attest sampleRequest), .migrateProgram 2 "Qm_transfer" "Qm_next",
      .use (.attest sampleRequest)],
    op.Proper deployedClient.transport.nodes.length
      deployedClient.threshold.toNat := by
  intro op hop
  simp only [upkeep, List.cons_append, List.nil_append, List.mem_cons,
    List.not_mem_nil, or_false] at hop
  rcases hop with rfl | rfl | rfl | rfl | rfl | rfl
  · exact ⟨by decide, by decide⟩
  · exact ⟨by decide, by decide⟩
  · exact (by decide : 1 < 3)
  · trivial
  · exact (by decide : 2 < 3)
  · trivial

/-- Two of the nodes still attest after the upkeep, and one does not after
another program took over at the third. -/
theorem service_explains_upkeep :
    letI := sha512Reference
    letI := floatFormatReference
    List.Forall₂
      (Service.Explains (basepointMul (3 : ℕ) : ReferencePoint) 2)
      (Simulation.answers ServiceOp.perform deployedClient
        (upkeep ++ [.use (.attest sampleRequest),
          .migrateProgram 2 "Qm_transfer" "Qm_next",
          .use (.attest sampleRequest)])).1
      [.served, .served, .served, .attested sampleTransaction, .served,
        .tooFew 1] := by
  let _ := sha512Reference
  let _ := floatFormatReference
  exact service_explains_answers inOrder_deployedClient proper_upkeep
    fun request _ => quietOn_of_pure _ request

theorem attested_after_upkeep :
    letI := sha512Reference
    letI := floatFormatReference
    ∃ attested next,
      (Simulation.answers ServiceOp.perform deployedClient upkeep).2.attest
          sampleRequest = (.ok attested, next) ∧
        attested.transaction = sampleTransaction ∧
        attested.verify = .ok ⟨⟩ := by
  let _ := sha512Reference
  let _ := floatFormatReference
  obtain ⟨hiff, hresult, -⟩ := attested_after_run_iff inOrder_deployedClient
    (fun op hop => proper_upkeep op (List.mem_append_left _ hop))
    sampleRequest fun request _ => quietOn_of_pure _ request
  have hremaining : deployedClient.service.remaining upkeep sampleRequest =
      [0, 2] := by
    decide +kernel
  rw [hremaining] at hiff hresult
  obtain ⟨attested, next, hattest⟩ := hiff.mpr (by decide)
  obtain ⟨htransaction, -, hverify⟩ := hresult attested next hattest
  exact ⟨attested, next, hattest, (Option.some.inj htransaction).symm, hverify⟩

end Samples

end CraftSec
