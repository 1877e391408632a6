/-
Transfers over WASM nodes, from the ledgers to the signature.  The nodes host
the compiled guest and each has a database of its own; a transfer is attested as
far as enough of these serve it.
-/
import CraftSec.Client.Deployment
import CraftSec.Node.TransferVerdict
import CraftSec.Node.Validators

namespace CraftSec

open TransferGuest (Conditions GuestTexts Hosts requestedTransfer)

section Transfers

variable {C P : Type} [Sqlite C] [SerdeJson] [SerdeJsonText] [FloatFormat]
  [GuestTexts] [LawfulFloatFormat] {Restored : F64 → Prop}

/-- What a node that hosts the guest makes of a request. -/
theorem TransferGuest.Hosts.execute_cases {registry : WasmProgramRegistry C}
    {request : AttestationRequest} (hhosts : Hosts registry request)
    (hcond : Conditions Restored request registry.databases) :
    (ProgramExecutor.execute registry request).2 = registry ∧
      (ProgramExecutor.execute registry request).1 ≠ Outcome.panic ∧
      ∀ tx, (ProgramExecutor.execute registry request).1 = .ok (.valid tx) ↔
        ∃ args, requestedTransfer request = some args ∧
          TransferGuest.Serves registry.databases request.requester
            args.recipient args.amount ∧
          tx = args.transaction request := by
  have hexecute : ProgramExecutor.execute registry request =
      ((TransferGuest.execute request registry.databases).1.mapError
        Stop.toAbort, registry) := by
    change ((registry.execute request).1.mapError Stop.toAbort,
      (registry.execute request).2) = _
    rw [hhosts.execute_eq hcond.reads hcond.selects]
  rw [hexecute]
  refine ⟨rfl, ?_⟩
  rcases TransferGuest.execute_cases hcond hhosts.1 with
    ⟨args, hdecode, hpositive, hserves, hvalid⟩ | ⟨hnone, hrefused⟩
  · have hrequested := TransferGuest.requestedTransfer_eq_some.mpr
      ⟨hdecode, hpositive⟩
    rw [hvalid]
    refine ⟨(fun hpanic => by cases hpanic), fun tx => ?_⟩
    constructor
    · intro htx
      cases htx
      exact ⟨args, hrequested, hserves, rfl⟩
    · rintro ⟨other, hother, -, rfl⟩
      rw [hrequested] at hother
      cases hother
      rfl
  · have hnever : ∀ tx, ¬ ∃ args, requestedTransfer request = some args ∧
        TransferGuest.Serves registry.databases request.requester
          args.recipient args.amount ∧ tx = args.transaction request := by
      rintro tx ⟨args, hrequested, hserves, -⟩
      obtain ⟨hdecode, hpositive⟩ :=
        TransferGuest.requestedTransfer_eq_some.mp hrequested
      exact hnone args hdecode hpositive hserves
    rcases hrefused with ⟨reason, hinvalid⟩ | ⟨error, herror⟩
    · rw [hinvalid]
      refine ⟨?_, fun tx => iff_of_false ?_ (hnever tx)⟩
      all_goals
        intro hsame
        cases hsame
    · rw [herror]
      refine ⟨?_, fun tx => iff_of_false ?_ (hnever tx)⟩
      all_goals
        intro hsame
        cases hsame

/-- Nodes that host the guest stay quiet. -/
theorem quietOn_of_hosts {nodes : List (CraftSecNode (WasmProgramRegistry C) P)}
    {request : AttestationRequest}
    (hhosts : ∀ node ∈ nodes, Hosts node.registry request)
    (hcond : ∀ node ∈ nodes,
      Conditions Restored request node.registry.databases) :
    QuietOn nodes request where
  keeps node hnode := ((hhosts node hnode).execute_cases (hcond node hnode)).1
  survives node hnode :=
    ((hhosts node hnode).execute_cases (hcond node hnode)).2.1

omit [SerdeJson] [SerdeJsonText] [FloatFormat] [GuestTexts]
  [LawfulFloatFormat] in
/-- The node has not frozen the program, and its database serves the requested
transfer. -/
def CraftSecNode.ServesTransfer (request : AttestationRequest)
    (node : CraftSecNode (WasmProgramRegistry C) P) : Prop :=
  request.programCid ∉ node.frozenPrograms ∧
    ∃ args ∈ requestedTransfer request,
      TransferGuest.Serves node.registry.databases request.requester
        args.recipient args.amount

instance (request : AttestationRequest) :
    DecidablePred (CraftSecNode.ServesTransfer (C := C) (P := P) request) :=
  fun node => inferInstanceAs (Decidable (request.programCid ∉
    node.frozenPrograms ∧ ∃ args ∈ requestedTransfer request, _))

/-- The nodes that serve the requested transfer. -/
def servingNodes (nodes : List (CraftSecNode (WasmProgramRegistry C) P))
    (request : AttestationRequest) : List ℕ :=
  (List.range nodes.length).filter fun i =>
    ∃ node ∈ nodes[i]?, node.ServesTransfer request

variable [EdwardsGroup P]
  {client : CraftSecClient (LocalTransport (WasmProgramRegistry C) P) P}
  {request : AttestationRequest}

omit [EdwardsGroup P] in
/-- A node approves where it serves the transfer, with its transaction. -/
theorem TransferGuest.Hosts.approved_eq_some_iff
    {node : CraftSecNode (WasmProgramRegistry C) P}
    (hhosts : Hosts node.registry request)
    (hcond : Conditions Restored request node.registry.databases)
    (tx : Transaction) :
    node.approved request = some tx ↔
      node.ServesTransfer request ∧
        ∃ args ∈ requestedTransfer request, tx = args.transaction request := by
  obtain ⟨-, -, hvalid⟩ := hhosts.execute_cases hcond
  rw [node.approved_eq_some_iff_execute, hvalid]
  constructor
  · rintro ⟨hfrozen, args, hrequested, hserves, htx⟩
    exact ⟨⟨hfrozen, args, hrequested, hserves⟩, args, hrequested, htx⟩
  · rintro ⟨⟨hfrozen, args, hrequested, hserves⟩, other, hother, htx⟩
    have hsame : other = args := Option.some.inj (hother.symm.trans hrequested)
    rw [hsame] at htx
    exact ⟨hfrozen, args, hrequested, hserves, htx⟩

omit [EdwardsGroup P] in
/-- The service of such nodes: who approves, and what. -/
theorem service_of_hosts
    (hhosts : ∀ node ∈ client.transport.nodes, Hosts node.registry request)
    (hcond : ∀ node ∈ client.transport.nodes,
      Conditions Restored request node.registry.databases) :
    client.service.approvers request =
        servingNodes client.transport.nodes request ∧
      ∀ i tx, client.service.approved request i = some tx →
        ∃ args ∈ requestedTransfer request,
          tx = args.transaction request := by
  have happroved : ∀ i tx, client.service.approved request i = some tx ↔
      ∃ node ∈ client.transport.nodes[i]?, node.ServesTransfer request ∧
        ∃ args ∈ requestedTransfer request,
          tx = args.transaction request := by
    intro i tx
    rw [← approvedAt_eq_service, approvedAt, Option.bind_eq_some_iff]
    refine exists_congr fun node => and_congr_right fun hnode => ?_
    have hmem := List.mem_of_getElem? hnode
    exact (hhosts node hmem).approved_eq_some_iff (hcond node hmem) tx
  constructor
  · rw [Service.approvers, servingNodes]
    apply List.filter_congr
    intro i _
    rw [Bool.eq_iff_iff, Option.isSome_iff_exists, decide_eq_true_iff]
    constructor
    · rintro ⟨tx, htx⟩
      obtain ⟨node, hnode, hserves, -⟩ := (happroved i tx).mp htx
      exact ⟨node, hnode, hserves⟩
    · rintro ⟨node, hnode, hserves⟩
      obtain ⟨-, args, hargs', -⟩ := id hserves
      exact ⟨_, (happroved i _).mpr ⟨node, hnode, hserves, args, hargs', rfl⟩⟩
  · intro i tx htx
    obtain ⟨node, -, -, hrequested⟩ := (happroved i tx).mp htx
    exact hrequested

variable [Sha512] [DecidableEq P]

/-- A transfer over nodes that host the guest, after any operations: it is
attested if and only if the request asks for a positive amount and enough nodes
have a database that serves it and were not made to freeze the program.  What
is signed is the requested transaction, under the first key. -/
theorem transfer_attested_after_run_iff (hinOrder : client.InOrder)
    {ops : List (ServiceOp P)}
    (hproper : ∀ op ∈ ops, op.Proper client.transport.nodes.length
      client.threshold.toNat)
    (hquiet : ∀ asked ∈ ops.filterMap ServiceOp.asks,
      QuietOn client.transport.nodes asked)
    (hhosts : ∀ node ∈ client.transport.nodes, Hosts node.registry request)
    (hcond : ∀ node ∈ client.transport.nodes,
      Conditions Restored request node.registry.databases) :
    let after := (Simulation.answers ServiceOp.perform client ops).2
    let remaining := (servingNodes client.transport.nodes request).filter
      fun i => (i, request.programCid) ∉ ops.filterMap ServiceOp.freezes
    ((∃ attested next, after.attest request = (.ok attested, next)) ↔
      client.threshold.toNat ≤ remaining.length) ∧
    (∀ attested next, after.attest request = (.ok attested, next) →
      (∃ args ∈ requestedTransfer request,
          attested.transaction = args.transaction request) ∧
        attested.groupPublicKey = client.groupPublicKey ∧
        attested.verify = .ok ⟨⟩) ∧
    (remaining.length < client.threshold.toNat →
      ∃ next, after.attest request =
        (Outcome.err (.insufficientShares remaining.length
          client.threshold.toNat), next)) := by
  intro after remaining
  obtain ⟨happrovers, hrequested⟩ := service_of_hosts hhosts hcond
  have hremaining : client.service.remaining ops request = remaining := by
    rw [Service.remaining, happrovers]
  have hquiet' : ∀ asked ∈ request :: ops.filterMap ServiceOp.asks,
      QuietOn client.transport.nodes asked :=
    List.forall_mem_cons.mpr ⟨quietOn_of_hosts hhosts hcond, hquiet⟩
  obtain ⟨hiff, hgood, hfew⟩ :=
    (hinOrder.attest_after_run hproper request hquiet').attested_iff
  rw [hremaining] at hiff hgood hfew
  refine ⟨hiff, ?_, hfew⟩
  intro attested next hattest
  obtain ⟨htransaction, hkey, hverify⟩ := hgood attested next hattest
  obtain ⟨first, -, hfirst⟩ := Option.bind_eq_some_iff.mp htransaction
  exact ⟨hrequested first _ hfirst, hkey, hverify⟩

end Transfers

section Samples

open TransferGuest (Compiles TransferRequest invalid params readRows)

/-- The bytes as a value that points behind the memory, where they are put. -/
def Instance.answerWith (state : Instance) (bytes : Bytes) : Run :=
  .returned (.i64 (pack state.size (UInt32.ofNat bytes.length)))
    (state.grow bytes)

/-- Query the account database, with the strings behind the memory. -/
def Instance.askAccounts [FloatFormat] (state : Instance) (sql did : String)
    (resume : Instance → Bytes → Run) : Run :=
  let asked := state.grow
    (utf8 "balances" ++ utf8 sql ++ utf8 (params did))
  let sqlLen := UInt32.ofNat (utf8 sql).length
  .hostSqlQuery asked state.size 8 (state.size + 8) sqlLen
    (state.size + 8 + sqlLen) (UInt32.ofNat (utf8 (params did)).length)
    (fun len => .returned (.i32 asked.size)
      (asked.grow (List.replicate len.toNat 0)))
    fun state packed =>
      resume state ((state.read (unpackPtr packed) (unpackLen packed)).getD [])

variable [SerdeJson] [SerdeJsonText] [FloatFormat] [GuestTexts]

/-- The guest on a request that it has read. -/
def Instance.transfer (state : Instance) (req : TransferRequest) : Run :=
  if req.args.amount.le ⟨0⟩ then
    state.answerWith (invalid "amount must be positive")
  else
    state.askAccounts "SELECT balance FROM accounts WHERE did = ?"
      req.requester fun state rows =>
        let judge (balance : F64) : Run :=
          if balance.lt req.args.amount then
            state.answerWith (invalid "insufficient balance")
          else
            state.askAccounts "SELECT 1 FROM accounts WHERE did = ?"
              req.args.recipient fun state rows =>
                match readRows (fromUtf8Lossy rows) with
                | some (_ :: _) =>
                    let tx := req.args.transaction
                      ⟨req.programCid, req.requester, .null, ""⟩
                    state.answerWith (TransferGuest.AttestResult.toTree
                      ⟨"valid", some tx, none⟩).write
                | _ => state.answerWith (invalid "recipient does not exist")
        match readRows (fromUtf8Lossy rows) with
        | some ([] :: _) => .trapped GuestTexts.trap
        | some ((cell :: _) :: _) => judge (cell.asF64.getD ⟨0⟩)
        | _ => judge ⟨0⟩

/-- A module that does what the guest's source says, up to the 32-bit limit of
its memory. -/
def transferModule : WasmModule where
  instantiate := .returned .other ⟨some [], []⟩
  guestAlloc := some fun state len =>
    .returned (.i32 state.size) (state.grow (List.replicate len.toNat 0))
  attest := some fun state ptr len =>
    let text := (fromUtf8 ((state.read ptr len).getD [])).toOption.getD ""
    match (SerdeJsonText.syntaxTree text).bind TransferRequest.decode with
    | none => state.answerWith
        (invalid s!"parse error: {GuestTexts.transferError text}")
    | some req => state.transfer req

/-- The run of the module on a request, which is all of its memory. -/
def transferEntry (request : AttestationRequest) : Run :=
  (transferModule.attest.map fun attest =>
    attest ⟨some request.toJson, []⟩ 0
      (UInt32.ofNat request.toJson.length)).getD .diverges

/-- The module ends like the guest, with the same bytes. -/
def runsAlike (databases : Databases Accounts) (request : AttestationRequest) :
    Bool :=
  match ((transferEntry request).run databases).1,
    (TransferGuest.attest request.toJson databases : _ × Databases Accounts).1
    with
  | .ok (.i64 packed, state), .ok bytes =>
      state.memory.isSome &&
        state.read (unpackPtr packed) (unpackLen packed) == some bytes
  | _, _ => false

omit [SerdeJson] [SerdeJsonText] [FloatFormat] [GuestTexts] in
/-- Every query returns, and none changes the accounts. -/
theorem query_accounts (accounts : Accounts) (sql : String)
    (values : List SqlValue) :
    ∃ answer, Sqlite.query accounts sql values =
      (.returned answer, accounts) := by
  rcases values with - | ⟨value, - | ⟨next, rest⟩⟩
  · exact ⟨_, rfl⟩
  · cases value with
    | text did =>
        simp only [Sqlite.query]
        split_ifs <;> exact ⟨_, rfl⟩
    | null => exact ⟨_, rfl⟩
    | integer => exact ⟨_, rfl⟩
    | real => exact ⟨_, rfl⟩
    | blob => exact ⟨_, rfl⟩
  · cases value <;> exact ⟨_, rfl⟩

omit [SerdeJson] [SerdeJsonText] [FloatFormat] [GuestTexts] in
theorem selectsOnlyRead_accounts (databases : Databases Accounts) :
    TransferGuest.SelectsOnlyRead databases :=
  fun db _ sql _ did => query_accounts db.conn sql [.text did]

omit [SerdeJsonText] [GuestTexts] in
theorem allReadOnly_accounts (statements : List (String × String)) :
    AllReadOnly Accounts statements := by
  intro statement _ db
  obtain ⟨answer, hquery⟩ := query_accounts db.conn statement.1
    ((SqlDatabase.queryParams statement.2).map SqlValue.ofJson)
  refine ⟨SqlDatabase.rowsText answer, ?_⟩
  rw [SqlDatabase.query]
  simp only [hquery, CallOutcome.map]

/-- Where the runs end alike, the module does what the guest does. -/
theorem compiles_of_runsAlike [LawfulSerdeJson] {databases : Databases Accounts}
    {request : AttestationRequest} (hfree : databases.lock = .free)
    (halike : runsAlike databases request = true) :
    Compiles (transferEntry request) request.toJson databases := by
  have hrun : ((transferEntry request).run databases).2 = databases :=
    Run.run_keeps _ _ (allReadOnly_accounts _)
  have hguest : (TransferGuest.attest request.toJson databases :
      _ × Databases Accounts).2 = databases :=
    TransferGuest.doAttest_keeps restoresFloats_of_lawful
      (selectsOnlyRead_accounts _) hfree _
  rw [runsAlike] at halike
  rw [Compiles]
  generalize (transferEntry request).run databases = result at hrun halike ⊢
  generalize TransferGuest.attest request.toJson databases = answer
    at hguest halike ⊢
  obtain ⟨result, after⟩ := result
  obtain ⟨answer, after'⟩ := answer
  simp only at hrun hguest halike
  subst hrun hguest
  split at halike
  next packed state bytes =>
    obtain ⟨hmemory, hread⟩ := Bool.and_eq_true_iff.mp halike
    exact ⟨packed, state, rfl, hmemory, by simpa using hread⟩
  next => cases halike

/-- So a registry with the module hosts the guest. -/
theorem hosts_transferModule [LawfulSerdeJson] {databases : Databases Accounts}
    {request : AttestationRequest} (hfree : databases.lock = .free)
    (hsize : request.toJson.length < 2 ^ 32)
    (halike : runsAlike databases request = true) :
    Hosts ⟨fun _ => some transferModule, databases⟩ request := by
  have hlen : (UInt32.ofNat request.toJson.length).toNat =
      request.toJson.length := UInt32.toNat_ofNat_of_lt' hsize
  have hwrite : Instance.write
      (Instance.grow ⟨some [], []⟩ (List.replicate
        (UInt32.ofNat request.toJson.length).toNat 0)) 0
      request.toJson.length request.toJson =
        some ⟨some request.toJson, []⟩ := by
    rw [hlen]
    simp [Instance.write, Instance.grow]
  exact ⟨hfree, transferModule, .other, ⟨some [], []⟩, _, _, 0, _, _, rfl, rfl,
    rfl, rfl, hwrite, rfl, compiles_of_runsAlike hfree halike⟩

/-- One unit from Alice to Bob, as the seventh transaction. -/
def seventhRequest : AttestationRequest :=
  transferRequest (transferArgs (.number (.posInt 7)))

end Samples

theorem runsAlike_seventhRequest :
    letI := JsonReference.floatFormat
    letI := JsonReference.serdeJson
    letI := JsonReference.serdeJsonText
    letI : TransferGuest.GuestTexts := ⟨fun _ => "", "unreachable"⟩
    seventhRequest.toJson.length < 2 ^ 32 ∧
      runsAlike twoAccounts seventhRequest = true := by
  decide +kernel

/-- Three nodes with the module and the accounts, and shares of `3 + 3 * x`. -/
def transferClient [SerdeJson] [SerdeJsonText] [FloatFormat]
    [TransferGuest.GuestTexts] :
    CraftSecClient (LocalTransport (WasmProgramRegistry Accounts)
      ReferencePoint) ReferencePoint where
  transport := .new ((List.range' 1 3).map fun i =>
    .new (linearShare 3 3 i) ⟨fun _ => some transferModule, twoAccounts⟩)
    unitRng
  groupPublicKey := basepointMul (3 : ℕ)
  threshold := 2
  nodeCount := 3

theorem inOrder_transferClient [SerdeJson] [SerdeJsonText] [FloatFormat]
    [TransferGuest.GuestTexts] : transferClient.InOrder where
  sharing := inOrder_deployedClient.sharing
  index_eq := by
    intro node hnode programCid
    obtain ⟨i, -, rfl⟩ := List.mem_map.mp hnode
    rfl
  nodeCount := rfl
  positive := inOrder_deployedClient.positive
  nonempty := List.cons_ne_nil _ _

theorem servingNodes_transferClient :
    letI := JsonReference.floatFormat
    letI := JsonReference.serdeJson
    letI := JsonReference.serdeJsonText
    letI : TransferGuest.GuestTexts := ⟨fun _ => "", "unreachable"⟩
    (servingNodes transferClient.transport.nodes seventhRequest).filter
      (fun i => (i, seventhRequest.programCid) ∉ upkeep.filterMap ServiceOp.freezes) =
        [0, 2] := by
  decide +kernel

/-- The first and the third node still attest the transfer after the second
froze the program. -/
theorem transfer_attested_after_upkeep :
    letI := sha512Reference
    letI := JsonReference.floatFormat
    letI := JsonReference.serdeJson
    letI := JsonReference.serdeJsonText
    letI : TransferGuest.GuestTexts := ⟨fun _ => "", "unreachable"⟩
    ∃ attested next,
      (Simulation.answers ServiceOp.perform transferClient upkeep).2.attest
          seventhRequest = (.ok attested, next) ∧
        attested.transaction.recipient = "did:bob" ∧
        attested.transaction.seq = 7 ∧
        attested.verify = .ok ⟨⟩ := by
  let _ := sha512Reference
  let _ := JsonReference.floatFormat
  let _ := JsonReference.serdeJson
  let _ := JsonReference.serdeJsonText
  let _ : TransferGuest.GuestTexts := ⟨fun _ => "", "unreachable"⟩
  have _ := JsonReference.lawfulSerdeJson
  have hhosts : ∀ node ∈ transferClient.transport.nodes,
      Hosts node.registry seventhRequest := by
    intro node hnode
    obtain ⟨i, -, rfl⟩ := List.mem_map.mp hnode
    exact hosts_transferModule rfl runsAlike_seventhRequest.1
      runsAlike_seventhRequest.2
  have hcond : ∀ node ∈ transferClient.transport.nodes,
      Conditions (fun _ => True) seventhRequest node.registry.databases :=
    fun _ _ => ⟨restoresFloats_of_lawful,
      TransferGuest.requestRestored_of_representable
        ⟨rfl, trivial, trivial, trivial⟩,
      fun _ _ => TransferGuest.answersRestored_true _ _ _,
      selectsOnlyRead_accounts _⟩
  obtain ⟨hiff, hgood, -⟩ := transfer_attested_after_run_iff
    inOrder_transferClient
    (fun op hop => proper_upkeep op (List.mem_append_left _ hop))
    (fun asked hasked => by cases hasked) hhosts hcond
  rw [servingNodes_transferClient] at hiff
  obtain ⟨attested, next, hattest⟩ := hiff.mpr (by decide)
  obtain ⟨⟨args, hargs, htransaction⟩, -, hverify⟩ :=
    hgood attested next hattest
  cases hargs
  exact ⟨attested, next, hattest, by rw [htransaction]; rfl,
    by rw [htransaction]; rfl, hverify⟩

end CraftSec
