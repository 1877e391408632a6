/-
Where an attested transaction comes from.  Neither backend, node nor client
compares its program CID with that of the request: it is what the program
registered under the request's CID produced, whatever CID it names.
-/
import CraftSec.Client.Local
import CraftSec.Node.Wasm

namespace CraftSec

namespace StatefulRegistry

variable {S : Type}

/-- The validator registered under the request's CID returned the
transaction. -/
def Produces (registry : StatefulRegistry S) (request : AttestationRequest)
    (tx : Transaction) : Prop :=
  ∃ validator, registry.programs request.programCid = some validator ∧
    (validator registry.state request).1 = .ok (.valid tx)

theorem produces_of_execute {registry : StatefulRegistry S}
    {request : AttestationRequest} {tx : Transaction}
    (hexecute : (ProgramExecutor.execute registry request).1 =
      .ok (.valid tx)) :
    registry.Produces request tx := by
  change (registry.execute request).1 = .ok (.valid tx) at hexecute
  rw [execute] at hexecute
  split at hexecute
  next => cases hexecute
  next validator hprogram => exact ⟨validator, hprogram, hexecute⟩

end StatefulRegistry

section Wasm

variable {C : Type} [Sqlite C] [SerdeJson] [FloatFormat]

/-- The bytes are the text of a valid result with the transaction. -/
def EncodesValid (bytes : Bytes) (tx : Transaction) : Prop :=
  ∃ text result, fromUtf8 bytes = .ok text ∧
    SerdeJson.fromStr text = .ok result ∧
    (result.getOrNull "status").asStr = some "valid" ∧
    Transaction.decode (result.getOrNull "transaction") = some tx

omit [FloatFormat] in
theorem encodesValid_of_decodeResult {bytes : Bytes} {tx : Transaction}
    (hdecode : decodeResult bytes = .ok (.valid tx)) :
    EncodesValid bytes tx := by
  rw [decodeResult] at hdecode
  split at hdecode
  next => cases hdecode
  next text htext =>
    split at hdecode
    next => cases hdecode
    next result hresult =>
      split at hdecode
      next hstatus =>
        split at hdecode
        next own htx =>
          cases hdecode
          refine ⟨text, result, htext, hresult, hstatus, ?_⟩
          rw [Transaction.fromValue] at htx
          split at htx
          next hown =>
            cases htx
            exact hown
          next => cases htx
        next => cases hdecode
      next => cases hdecode
      next => cases hdecode

/-- The module's run on the databases: it starts, takes the request in where its
allocator finds room, and its `attest` ends pointing at a valid result with the
transaction. -/
def WasmModule.Emits (module : WasmModule) (databases : Databases C)
    (request : AttestationRequest) (tx : Transaction) : Prop :=
  ∃ (value : Val) (fresh allocated before ended : Instance)
      (guestAlloc : Instance → UInt32 → Run)
      (attest : Instance → UInt32 → UInt32 → Run) (requestPtr : UInt32)
      (packed : UInt64) (bytes : Bytes) (started middle after : Databases C),
    module.instantiate.run databases = (.ok (value, fresh), started) ∧
    module.guestAlloc = some guestAlloc ∧
    (guestAlloc fresh (UInt32.ofNat request.toJson.length)).run started =
      (.ok (.i32 requestPtr, allocated), middle) ∧
    allocated.write requestPtr request.toJson.length request.toJson =
      some before ∧
    module.attest = some attest ∧
    (attest before requestPtr (UInt32.ofNat request.toJson.length)).run
      middle = (.ok (.i64 packed, ended), after) ∧
    ended.read (unpackPtr packed) (unpackLen packed) = some bytes ∧
    EncodesValid bytes tx

theorem WasmModule.emits_of_execute {module : WasmModule}
    {request : AttestationRequest} {tx : Transaction}
    {databases after : Databases C}
    (hexecute : module.execute request databases =
      (.ok (.valid tx), after)) :
    module.Emits databases request tx := by
  rw [execute] at hexecute
  obtain ⟨⟨value, fresh⟩, started, hstart, hexecute⟩ :=
    Exec.bind_eq_ok hexecute
  obtain ⟨guestAlloc, _, halloc, hexecute⟩ := Exec.bind_eq_ok hexecute
  rw [(Exec.okOr_eq_ok halloc).2] at hexecute
  obtain ⟨⟨_, allocated⟩, middle, hcall, hexecute⟩ := Exec.bind_eq_ok hexecute
  obtain ⟨requestPtr, _, hptr, hexecute⟩ := Exec.bind_eq_ok hexecute
  rw [(Val.unwrapI32_eq_ok hptr).2] at hexecute
  obtain ⟨_, _, hmemory, hexecute⟩ := Exec.bind_eq_ok hexecute
  rw [(Exec.okOr_eq_ok hmemory).2] at hexecute
  obtain ⟨before, _, hwrite, hexecute⟩ := Exec.bind_eq_ok hexecute
  rw [(Exec.orPanic_eq_ok hwrite).2] at hexecute
  obtain ⟨attest, _, hattest, hexecute⟩ := Exec.bind_eq_ok hexecute
  rw [(Exec.okOr_eq_ok hattest).2] at hexecute
  obtain ⟨⟨_, ended⟩, last, hrun, hexecute⟩ := Exec.bind_eq_ok hexecute
  obtain ⟨packed, _, hpacked, hexecute⟩ := Exec.bind_eq_ok hexecute
  obtain ⟨_, _, -, hexecute⟩ := Exec.bind_eq_ok hexecute
  obtain ⟨bytes, _, hread, hexecute⟩ := Exec.bind_eq_ok hexecute
  have hallocated := Exec.mapErr_eq_ok hcall
  rw [(Val.unwrapI32_eq_ok hptr).1] at hallocated
  have hreturned := Exec.mapErr_eq_ok hrun
  rw [(Val.unwrapI64_eq_ok hpacked).1] at hreturned
  exact ⟨value, fresh, allocated, before, ended, guestAlloc, attest,
    requestPtr, packed, bytes, started, middle, last, Exec.mapErr_eq_ok hstart,
    (Exec.okOr_eq_ok halloc).1, hallocated, (Exec.orPanic_eq_ok hwrite).1,
    (Exec.okOr_eq_ok hattest).1, hreturned, (Exec.orPanic_eq_ok hread).1,
    encodesValid_of_decodeResult (Exec.ofExcept_eq_ok hexecute).1⟩

/-- The module registered under the request's CID emitted the transaction, run
on the registry's databases. -/
def WasmProgramRegistry.Produces (registry : WasmProgramRegistry C)
    (request : AttestationRequest) (tx : Transaction) : Prop :=
  ∃ module, registry.modules request.programCid = some module ∧
    module.Emits registry.databases request tx

theorem WasmProgramRegistry.produces_of_execute
    {registry : WasmProgramRegistry C} {request : AttestationRequest}
    {tx : Transaction}
    (hexecute : (ProgramExecutor.execute registry request).1 =
      .ok (.valid tx)) :
    registry.Produces request tx := by
  change (registry.execute request).1.mapError Stop.toAbort = .ok (.valid tx)
    at hexecute
  rw [WasmProgramRegistry.execute] at hexecute
  split at hexecute
  next => cases hexecute
  next module hmodule =>
    refine ⟨module, hmodule, ?_⟩
    cases hrun : module.execute request registry.databases with
    | mk result after =>
        rw [hrun] at hexecute
        cases result with
        | error => cases hexecute
        | ok result =>
            cases hexecute
            exact WasmModule.emits_of_execute hrun

end Wasm

section Approval

variable {E P : Type} [ProgramExecutor E]

/-- A node approves what its backend returns for a program not frozen. -/
theorem approved_eq_some {node : CraftSecNode E P}
    {request : AttestationRequest} {tx : Transaction}
    (happroved : node.approved request = some tx) :
    ¬ node.isFrozen request.programCid ∧
      (ProgramExecutor.execute node.registry request).1 = .ok (.valid tx) := by
  rw [CraftSecNode.approved] at happroved
  split at happroved
  next => cases happroved
  next hfrozen =>
    refine ⟨hfrozen, ?_⟩
    split at happroved
    next own hexecute =>
      cases happroved
      exact hexecute
    next => cases happroved

theorem exists_node_of_approvedAt {nodes : List (CraftSecNode E P)}
    {request : AttestationRequest} {i : ℕ} {tx : Transaction}
    (happroved : approvedAt nodes request i = some tx) :
    ∃ node ∈ nodes, node.approved request = some tx := by
  obtain ⟨node, hnode, happroved⟩ := Option.bind_eq_some_iff.mp happroved
  exact ⟨node, List.mem_of_getElem? hnode, happroved⟩

theorem Collected.add_transaction {collected : Collected P} {i : ℕ}
    {resp : Round1Response P} {tx : Transaction}
    (hadd : (collected.add i resp).transaction = some tx) :
    collected.transaction = some tx ∨ resp.result = .valid tx := by
  rw [Collected.add] at hadd
  split at hadd
  next own hvalid =>
    rcases Option.or_eq_some_iff.mp hadd with hbefore | ⟨-, hown⟩
    · exact Or.inl hbefore
    · cases hown
      exact Or.inr hvalid
  next => exact Or.inl hadd

end Approval

section Nodes

variable {E P : Type} [EdwardsGroup P] [ProgramExecutor E]

/-- Round 1 on one node leaves the others as they were. -/
theorem round1_getElem?_of_ne (transport : LocalTransport E P) {i j : ℕ}
    (hne : i ≠ j) (request : AttestationRequest) :
    (transport.round1 i request).2.nodes[j]? = transport.nodes[j]? := by
  rcases transport.round1_cases i request with
    ⟨-, heq⟩ | ⟨node, node', rng, -, -, hcases⟩
  · rw [heq]
  · rcases hcases with ⟨tx, -, heq⟩ | ⟨reason, -, heq⟩ | ⟨abort, -, -, heq⟩
    all_goals
      rw [heq]
      exact List.getElem?_set_ne hne

/-- An answer `Valid` is an approval by the node asked. -/
theorem approvedAt_of_round1 {transport after : LocalTransport E P} {i : ℕ}
    {request : AttestationRequest} {resp : Round1Response P} {tx : Transaction}
    (hround1 : transport.round1 i request = (.ok resp, after))
    (hvalid : resp.result = .valid tx) :
    approvedAt transport.nodes request i = some tx := by
  rcases transport.round1_cases i request with
    ⟨-, heq⟩ | ⟨node, node', rng, hnode, -, hcases⟩
  · rw [heq] at hround1
    cases hround1
  · rcases hcases with ⟨own, happroved, heq⟩ | ⟨reason, -, heq⟩ |
      ⟨abort, -, -, heq⟩
    · rw [heq] at hround1
      cases hround1
      cases hvalid
      rw [approvedAt, hnode]
      exact happroved
    · rw [heq] at hround1
      cases hround1
      cases hvalid
    · rw [heq] at hround1
      cases hround1

variable [Sha512]

/-- The transaction the loop ends with was there before or approved by one of
the nodes, in the state the loop found it in. -/
theorem collect_transaction_origin {threshold : ℕ}
    {request : AttestationRequest} {indices : List ℕ} (hnodup : indices.Nodup)
    {collected ended : Collected P} {transport after : LocalTransport E P}
    (hcollect : collect threshold request indices collected transport =
      (.ok ended, after))
    {tx : Transaction} (hended : ended.transaction = some tx) :
    collected.transaction = some tx ∨
      ∃ i ∈ indices, approvedAt transport.nodes request i = some tx := by
  induction indices generalizing collected transport with
  | nil =>
      cases hcollect
      exact Or.inl hended
  | cons i rest ih =>
      obtain ⟨hfresh, hnodup⟩ := List.nodup_cons.mp hnodup
      have hlater {next : LocalTransport E P}
          (hnext : (transport.round1 i request).2 = next)
          (hrest : ∃ j ∈ rest, approvedAt next.nodes request j = some tx) :
          ∃ j ∈ i :: rest, approvedAt transport.nodes request j = some tx := by
        obtain ⟨j, hj, happroved⟩ := hrest
        have hne : i ≠ j := fun heq => hfresh (heq ▸ hj)
        rw [approvedAt, ← hnext, round1_getElem?_of_ne transport hne]
          at happroved
        exact ⟨j, List.mem_cons_of_mem i hj, happroved⟩
      cases hround1 : transport.round1 i request with
      | mk outcome next =>
          rw [hround1] at hlater
          cases outcome with
          | error abort =>
              cases abort with
              | panic =>
                  rw [collect] at hcollect
                  simp only [NodeTransport.round1, hround1] at hcollect
                  cases hcollect
              | err error =>
                  rw [collect_cons_err hround1] at hcollect
                  exact (ih hnodup hcollect).imp_right (hlater rfl)
          | ok resp =>
              have hadd (hown : (collected.add i resp).transaction = some tx) :
                  collected.transaction = some tx ∨ ∃ j ∈ i :: rest,
                    approvedAt transport.nodes request j = some tx :=
                (Collected.add_transaction hown).imp_right fun hvalid =>
                  ⟨i, List.mem_cons_self, approvedAt_of_round1 hround1 hvalid⟩
              rw [collect_cons_ok hround1] at hcollect
              split at hcollect
              next =>
                cases hcollect
                exact hadd hended
              next =>
                rcases ih hnodup hcollect with hown | hrest
                · exact hadd hown
                · exact Or.inr (hlater rfl hrest)

variable [FloatFormat] [DecidableEq P]

/-- An attested transaction was approved by one of the nodes the client
started with. -/
theorem attest_transaction_origin
    {client : CraftSecClient (LocalTransport E P) P}
    {request : AttestationRequest} {attested : AttestedTransaction P}
    (hattest : (client.attest request).1 = .ok attested) :
    ∃ node ∈ client.transport.nodes,
      node.approved request = some attested.transaction := by
  have hpair : client.attest request = (.ok attested,
      (client.attest request).2) := Prod.ext hattest rfl
  obtain ⟨collected, middle, -, -, hcollect, -, htransaction, -⟩ :=
    attest_eq_ok hpair
  rcases collect_transaction_origin List.nodup_range hcollect htransaction with
    hnone | ⟨i, -, happroved⟩
  · cases hnone
  · exact exists_node_of_approvedAt happroved

end Nodes

/-- What is known of the transactions that nodes with backend `E` approve and
of those attested over such nodes, where `Produces` says what a registered
program made of a request. -/
structure PassesOnProduced (E P : Type) [ProgramExecutor E] [EdwardsGroup P]
    [DecidableEq P] [Sha512] [FloatFormat]
    (Produces : E → AttestationRequest → Transaction → Prop) : Prop where
  approved : ∀ (node : CraftSecNode E P) (request : AttestationRequest)
      (rng : Rng) (tx : Transaction) (commitment : Option (SigningCommitment P))
      (nonce : Option SigningNonce),
    (node.processRequest request rng).1 = .ok ⟨.valid tx, commitment, nonce⟩ →
      ¬ node.isFrozen request.programCid ∧ Produces node.registry request tx
  attested : ∀ (client : CraftSecClient (LocalTransport E P) P)
      (request : AttestationRequest) (attested : AttestedTransaction P),
    (client.attest request).1 = .ok attested →
      ∃ node ∈ client.transport.nodes, ¬ node.isFrozen request.programCid ∧
        Produces node.registry request attested.transaction
  /-- Programs that name the CID they are run under are named. -/
  attested_cid : ∀ (client : CraftSecClient (LocalTransport E P) P)
      (request : AttestationRequest) (attested : AttestedTransaction P),
    (∀ node ∈ client.transport.nodes, ∀ tx,
      Produces node.registry request tx →
        tx.programCid = request.programCid) →
    (client.attest request).1 = .ok attested →
      attested.transaction.programCid = request.programCid

section Sound

variable {E P : Type} [ProgramExecutor E] [EdwardsGroup P] [DecidableEq P]
  [Sha512] [FloatFormat]

theorem passesOnProduced_of_execute
    {Produces : E → AttestationRequest → Transaction → Prop}
    (hproduces : ∀ (registry : E) (request : AttestationRequest)
        (tx : Transaction),
      (ProgramExecutor.execute registry request).1 = .ok (.valid tx) →
        Produces registry request tx) :
    PassesOnProduced E P Produces := by
  have horigin (client : CraftSecClient (LocalTransport E P) P)
      (request : AttestationRequest) (attested : AttestedTransaction P)
      (hattest : (client.attest request).1 = .ok attested) :
      ∃ node ∈ client.transport.nodes, ¬ node.isFrozen request.programCid ∧
        Produces node.registry request attested.transaction := by
    obtain ⟨node, hmem, happroved⟩ := attest_transaction_origin hattest
    exact ⟨node, hmem,
      (approved_eq_some happroved).imp_right (hproduces _ _ _)⟩
  refine ⟨?_, horigin, ?_⟩
  · intro node request rng tx commitment nonce hvalid
    have happroved := (node.approved_eq_some_iff request rng tx).mpr
      ⟨commitment, nonce, hvalid⟩
    exact (approved_eq_some happroved).imp_right (hproduces _ _ _)
  · intro client request attested hnames hattest
    obtain ⟨node, hmem, -, hproduced⟩ :=
      horigin client request attested hattest
    exact hnames node hmem _ hproduced

end Sound

/-- With either backend a transaction that is approved, or attested over such
nodes, was produced by the program registered under the request's CID. -/
theorem attested_was_produced (P : Type) [EdwardsGroup P] [DecidableEq P]
    [Sha512] [FloatFormat] [SerdeJson] (S C : Type) [Sqlite C] :
    PassesOnProduced (StatefulRegistry S) P StatefulRegistry.Produces ∧
      PassesOnProduced (WasmProgramRegistry C) P
        WasmProgramRegistry.Produces :=
  ⟨passesOnProduced_of_execute fun _ _ _ =>
      StatefulRegistry.produces_of_execute,
    passesOnProduced_of_execute fun _ _ _ =>
      WasmProgramRegistry.produces_of_execute⟩

/-- The transfer under the name of another program. -/
def foreignTransaction : Transaction :=
  { sampleTransaction with programCid := "Qm_compliance" }

/-- Two nodes whose transfer program names the other program; no program has
a key of its own. -/
def foreignClient :
    CraftSecClient (LocalTransport ProgramRegistry ReferencePoint)
      ReferencePoint where
  transport := .new
    [approvingNode (linearShare 3 3 1) foreignTransaction,
      approvingNode (linearShare 3 3 2) foreignTransaction] unitRng
  groupPublicKey := basepointMul (3 : ℕ)
  threshold := 2
  nodeCount := 2

theorem attested_names_other_program :
    letI := sha512Reference
    letI := floatFormatReference
    (∀ rng, ∃ commitment nonce,
      ((approvingNode (linearShare 3 3 1) foreignTransaction :
          CraftSecNode ProgramRegistry ReferencePoint).processRequest
        sampleRequest rng).1 =
          .ok ⟨.valid foreignTransaction, commitment, nonce⟩) ∧
    (∃ attested, (foreignClient.attest sampleRequest).1 = .ok attested ∧
      attested.verify = .ok ⟨⟩ ∧ attested.transaction = foreignTransaction) ∧
    foreignTransaction.programCid ≠ sampleRequest.programCid := by
  let _ := sha512Reference
  let _ := floatFormatReference
  have happroving : approving foreignClient.transport.nodes sampleRequest =
      [0, 1] := by
    decide +kernel
  have hmember : ∀ node ∈ foreignClient.transport.nodes,
      node.keyShare ∈ linearShares 3 3 ∧ node.keyShares = fun _ => none := by
    intro node hnode
    change node ∈ [_, _] at hnode
    simp only [List.mem_cons, List.not_mem_nil, or_false] at hnode
    rcases hnode with rfl | rfl
    · exact ⟨linearShare_mem 3 3 (by decide) (by decide), rfl⟩
    · exact ⟨linearShare_mem 3 3 (by decide) (by decide), rfl⟩
  have hdistinct : (foreignClient.transport.nodes.map fun node =>
      node.keyShare.index).Nodup := by
    decide +kernel
  obtain ⟨F, hdegree, hsharing⟩ := wellFormed_linearShares 3 3
  have hlow : F.degree < foreignClient.threshold.toNat := hdegree
  have hshared := programSharing_of_default hmember hdistinct sampleRequest
    foreignClient.threshold.toNat
  obtain ⟨attested, after, -, hattest, -, hfirst, hverify, -⟩ :=
    local_attest_eq_ok (quietOn_of_pure _ _) hsharing hlow hshared.1 hshared.2
      (hasGroupKey_linearShares 3 3) rfl (by decide)
      (by rw [happroving]; decide)
  rw [happroving] at hfirst
  have hown : some foreignTransaction = some attested.transaction := hfirst
  refine ⟨fun rng => ?_, ⟨attested, by rw [hattest], hverify,
    (Option.some.inj hown).symm⟩, by decide⟩
  exact (CraftSecNode.approved_eq_some_iff _ _ rng _).mp rfl

end CraftSec
