/-
A threshold node: it validates requests, commits to nonces in round 1 and
releases partial signatures in round 2.
-/
import CraftSec.Node.Executor
import CraftSec.Signing.Session

namespace CraftSec

/-- `CraftSecNode`. -/
structure CraftSecNode (E P : Type) where
  keyShares : String → Option (KeyShare P)
  keyShare : KeyShare P
  registry : E
  frozenPrograms : Finset String

/-- Result of processing an attestation request at a node. -/
structure NodeResponse (P : Type) where
  result : AttestationResult
  commitment : Option (SigningCommitment P)
  nonce : Option SigningNonce

/-- Result of round 2 at a node. -/
structure NodeSignature where
  part : PartialSignature

namespace CraftSecNode

variable {E P : Type}

def new (keyShare : KeyShare P) (registry : E) : CraftSecNode E P where
  keyShares _ := none
  keyShare := keyShare
  registry := registry
  frozenPrograms := ∅

/-- `register_key`. -/
def registerKey (node : CraftSecNode E P) (programCid : String)
    (keyShare : KeyShare P) : CraftSecNode E P :=
  { node with
    keyShares := Function.update node.keyShares programCid (some keyShare) }

/-- `freeze_program`. -/
def freezeProgram (node : CraftSecNode E P) (programCid : String) :
    CraftSecNode E P :=
  { node with frozenPrograms := insert programCid node.frozenPrograms }

/-- `is_frozen`. -/
def isFrozen (node : CraftSecNode E P) (programCid : String) : Prop :=
  programCid ∈ node.frozenPrograms

instance (node : CraftSecNode E P) (programCid : String) :
    Decidable (node.isFrozen programCid) :=
  inferInstanceAs (Decidable (programCid ∈ node.frozenPrograms))

/-- `get_key_share`: the share registered for the program, or the default. -/
def getKeyShare (node : CraftSecNode E P) (programCid : String) : KeyShare P :=
  (node.keyShares programCid).getD node.keyShare

/-- `migrate_program`. -/
def migrateProgram (node : CraftSecNode E P) (oldCid newCid : String) :
    CraftSecNode E P :=
  (node.registerKey newCid (node.getKeyShare oldCid)).freezeProgram oldCid

variable [EdwardsGroup P] [ProgramExecutor E]

/-- `process_request`. -/
def processRequest (node : CraftSecNode E P) (request : AttestationRequest)
    (rng : Rng) : Outcome (NodeResponse P) × CraftSecNode E P × Rng :=
  if node.isFrozen request.programCid then
    (Outcome.err (.programFrozen request.programCid), node, rng)
  else
    let (outcome, registry) := ProgramExecutor.execute node.registry request
    let node := { node with registry := registry }
    match outcome with
    | .error abort => (.error abort, node, rng)
    | .ok (.valid tx) =>
        let ks := node.getKeyShare request.programCid
        let ((nonce, commitment), rng) := generateNonces ks.index rng
        (.ok ⟨.valid tx, some commitment, some nonce⟩, node, rng)
    | .ok (.invalid reason) =>
        (.ok ⟨.invalid reason, none, none⟩, node, rng)

variable [Sha512]

/-- `sign`: the default key share signs. -/
def sign (node : CraftSecNode E P) (nonce : SigningNonce) (message : Bytes)
    (commitments : List (SigningCommitment P)) : Outcome NodeSignature := do
  let part ← signPartial node.keyShare nonce message commitments
  return ⟨part⟩

/-- `sign_for_program`. -/
def signForProgram (node : CraftSecNode E P) (programCid : String)
    (nonce : SigningNonce) (message : Bytes)
    (commitments : List (SigningCommitment P)) : Outcome NodeSignature := do
  let ks := node.getKeyShare programCid
  let part ← signPartial ks nonce message commitments
  return ⟨part⟩

end CraftSecNode

/-- What programs make of a request. -/
def verdict {E : Type} [ProgramExecutor E] (registry : E)
    (request : AttestationRequest) : Option Transaction :=
  match (ProgramExecutor.execute registry request).1 with
  | .ok (.valid tx) => some tx
  | _ => none

namespace CraftSecNode

variable {E P : Type} [EdwardsGroup P] [ProgramExecutor E]

/-- The transaction a node approves for a request, if any. -/
def approved (node : CraftSecNode E P) (request : AttestationRequest) :
    Option Transaction :=
  if node.isFrozen request.programCid then none
  else
    match (ProgramExecutor.execute node.registry request).1 with
    | .ok (.valid tx) => some tx
    | _ => none

omit [EdwardsGroup P] in
/-- What a node approves is what its programs make of the request, unless it
has frozen the program. -/
theorem approved_eq (node : CraftSecNode E P) (request : AttestationRequest) :
    node.approved request =
      if node.isFrozen request.programCid then none
      else verdict node.registry request := rfl

/-- The nonce pair a node draws for a request it approves. -/
def drawNonce (node : CraftSecNode E P) (request : AttestationRequest)
    (rng : Rng) : SigningNonce :=
  (generateNonces (P := P) (node.getKeyShare request.programCid).index rng).1.1

/-- What one request can do: the node approves, and answers with the commitment
of a fresh nonce; it rejects without a nonce; or the call fails.  Only the
backend may change, and only a panicking backend makes the call panic. -/
theorem processRequest_cases (node : CraftSecNode E P)
    (request : AttestationRequest) (rng : Rng) :
    ∃ registry, (registry = node.registry ∨
        registry = (ProgramExecutor.execute node.registry request).2) ∧
      ((∃ tx, node.approved request = some tx ∧
          node.processRequest request rng =
            (.ok ⟨.valid tx, some (node.drawNonce request rng).commitment,
                some (node.drawNonce request rng)⟩,
              { node with registry := registry },
              (generateNonces (P := P)
                (node.getKeyShare request.programCid).index rng).2)) ∨
        (∃ reason, node.approved request = none ∧
          node.processRequest request rng =
            (.ok ⟨.invalid reason, none, none⟩,
              { node with registry := registry }, rng)) ∨
        (∃ abort, node.approved request = none ∧
          (abort = .panic →
            (ProgramExecutor.execute node.registry request).1 =
              Outcome.panic) ∧
          node.processRequest request rng =
            (.error abort, { node with registry := registry }, rng))) := by
  by_cases hfrozen : node.isFrozen request.programCid
  · refine ⟨node.registry, Or.inl rfl, Or.inr (Or.inr
      ⟨.err (.programFrozen request.programCid), ?_, ?_, ?_⟩)⟩
    · rw [approved, if_pos hfrozen]
    · intro hpanic
      cases hpanic
    · rw [processRequest, if_pos hfrozen]
      rfl
  · refine ⟨_, Or.inr rfl, ?_⟩
    rw [processRequest, if_neg hfrozen, approved, if_neg hfrozen]
    cases ProgramExecutor.execute node.registry request with
    | mk outcome registry =>
        cases outcome with
        | error abort =>
            refine Or.inr (Or.inr ⟨abort, rfl, ?_, rfl⟩)
            rintro rfl
            rfl
        | ok result =>
            cases result with
            | valid tx => exact Or.inl ⟨tx, rfl, rfl⟩
            | invalid reason => exact Or.inr (Or.inl ⟨reason, rfl, rfl⟩)

omit [EdwardsGroup P] in
/-- A node approves what its programs do, unless it has frozen the program. -/
theorem approved_eq_some_iff_execute (node : CraftSecNode E P)
    (request : AttestationRequest) (tx : Transaction) :
    node.approved request = some tx ↔
      ¬ node.isFrozen request.programCid ∧
        (ProgramExecutor.execute node.registry request).1 =
          .ok (.valid tx) := by
  rw [approved]
  by_cases hfrozen : node.isFrozen request.programCid
  · rw [if_pos hfrozen]
    simp [hfrozen]
  · rw [if_neg hfrozen]
    split
    next other hother => simp [hfrozen, hother]
    next hother =>
      refine iff_of_false (by simp) ?_
      rintro ⟨-, hok⟩
      exact hother tx hok

/-- Approving is answering with `Valid`, whatever the byte source yields. -/
theorem approved_eq_some_iff (node : CraftSecNode E P)
    (request : AttestationRequest) (rng : Rng) (tx : Transaction) :
    node.approved request = some tx ↔ ∃ commitment nonce,
      (node.processRequest request rng).1 =
        .ok ⟨.valid tx, commitment, nonce⟩ := by
  obtain ⟨registry, -, hcases⟩ := node.processRequest_cases request rng
  rcases hcases with ⟨own, happroved, heq⟩ | ⟨reason, happroved, heq⟩ |
    ⟨abort, happroved, -, heq⟩
  · rw [happroved, heq]
    constructor
    · rintro ⟨rfl⟩
      exact ⟨_, _, rfl⟩
    · rintro ⟨commitment, nonce, hsame⟩
      cases hsame
      rfl
  · rw [happroved, heq]
    constructor
    · intro hsome
      cases hsome
    · rintro ⟨commitment, nonce, hsame⟩
      cases hsame
  · rw [happroved, heq]
    constructor
    · intro hsome
      cases hsome
    · rintro ⟨commitment, nonce, hsame⟩
      cases hsame

/-- A request changes a node in its execution backend only. -/
theorem processRequest_node (node : CraftSecNode E P)
    (request : AttestationRequest) (rng : Rng) :
    ∃ registry, (node.processRequest request rng).2.1 =
      { node with registry := registry } := by
  obtain ⟨registry, -, hcases⟩ := node.processRequest_cases request rng
  refine ⟨registry, ?_⟩
  rcases hcases with ⟨tx, -, heq⟩ | ⟨reason, -, heq⟩ | ⟨abort, -, -, heq⟩
  all_goals rw [heq]

end CraftSecNode

/-- A transfer of one unit, with the validator's defaults. -/
def sampleTransaction : Transaction where
  seq := 1
  prevHash := "0000"
  sender := "did:alice"
  recipient := "did:bob"
  amount := ⟨0x3ff0000000000000⟩
  asset := "USDC"
  timestamp := 0
  programCid := "Qm_transfer"
  userSig := "placeholder"

def sampleRequest : AttestationRequest where
  programCid := "Qm_transfer"
  requester := "did:alice"
  args := .null
  requestId := "req-1"

/-- A node whose transfer program approves `tx`. -/
def approvingNode {P : Type} (keyShare : KeyShare P) (tx : Transaction) :
    CraftSecNode ProgramRegistry P :=
  .new keyShare
    (ProgramRegistry.new.register "Qm_transfer" fun _ => .ok (.valid tx))

end CraftSec
