/-
Runs of the operations on a node, and what freezing a program achieves.  The
frozen set only grows and round 1 consults it; round 2 never does.
-/
import CraftSec.Core.Reference
import CraftSec.Dkg.Invariant
import CraftSec.Lib.History
import CraftSec.Node.Node

namespace CraftSec

open History (Trace)

/-- An operation on a node. -/
inductive NodeOp (P : Type) where
  | registerKey (programCid : String) (keyShare : KeyShare P)
  | freezeProgram (programCid : String)
  | migrateProgram (oldCid newCid : String)
  | processRequest (request : AttestationRequest) (rng : Rng)

/-- A nonce that left a node, with the program it was drawn for. -/
structure IssuedNonce where
  programCid : String
  nonce : SigningNonce
deriving DecidableEq

/-- Freezing and migrating are the operations that freeze a program. -/
def NodeOp.frozenBy {P : Type} : NodeOp P → Option String
  | .registerKey _ _ => none
  | .freezeProgram programCid => some programCid
  | .migrateProgram oldCid _ => some oldCid
  | .processRequest _ _ => none

variable {E P : Type} [EdwardsGroup P] [ProgramExecutor E]

/-- Run an operation; a request that is approved issues a nonce. -/
def NodeOp.perform (node : CraftSecNode E P) :
    NodeOp P → Option IssuedNonce × CraftSecNode E P
  | .registerKey programCid keyShare =>
      (none, node.registerKey programCid keyShare)
  | .freezeProgram programCid => (none, node.freezeProgram programCid)
  | .migrateProgram oldCid newCid => (none, node.migrateProgram oldCid newCid)
  | .processRequest request rng =>
      let (outcome, node, _) := node.processRequest request rng
      match outcome with
      | .ok resp => (resp.nonce.map fun nonce => ⟨request.programCid, nonce⟩, node)
      | .error _ => (none, node)

/-- Run operations on a new node, recording the nonces it issues. -/
def runNode (keyShare : KeyShare P) (registry : E) (ops : List (NodeOp P)) :
    Trace (CraftSecNode E P) (Option IssuedNonce) :=
  History.run NodeOp.perform (CraftSecNode.new keyShare registry) ops

/-- Every operation freezes the program it names, if any, and nothing is ever
taken out of the frozen set. -/
theorem NodeOp.isFrozen_perform (node : CraftSecNode E P) (op : NodeOp P)
    (programCid : String) :
    (op.perform node).2.isFrozen programCid ↔
      op.frozenBy = some programCid ∨ node.isFrozen programCid := by
  cases op with
  | registerKey =>
      simp [NodeOp.perform, NodeOp.frozenBy, CraftSecNode.isFrozen,
        CraftSecNode.registerKey]
  | freezeProgram =>
      simp [NodeOp.perform, NodeOp.frozenBy, CraftSecNode.isFrozen,
        CraftSecNode.freezeProgram, eq_comm]
  | migrateProgram =>
      simp [NodeOp.perform, NodeOp.frozenBy, CraftSecNode.isFrozen,
        CraftSecNode.migrateProgram, CraftSecNode.freezeProgram,
        CraftSecNode.registerKey, eq_comm]
  | processRequest request rng =>
      obtain ⟨registry, hnode⟩ := node.processRequest_node request rng
      have hafter : ((NodeOp.processRequest request rng).perform node).2 =
          { node with registry := registry } := by
        rw [← hnode, NodeOp.perform]
        generalize node.processRequest request rng = result
        obtain ⟨outcome, after, rng'⟩ := result
        cases outcome with
        | error => rfl
        | ok => rfl
      rw [hafter]
      simp [NodeOp.frozenBy, CraftSecNode.isFrozen]

/-- After a run exactly the programs named by its freezing operations are
frozen. -/
theorem isFrozen_runNode (keyShare : KeyShare P) (registry : E)
    (ops : List (NodeOp P)) (programCid : String) :
    (runNode keyShare registry ops).state.isFrozen programCid ↔
      ∃ op ∈ ops, op.frozenBy = some programCid := by
  have hfold : ∀ (rest : List (NodeOp P))
      (trace : Trace (CraftSecNode E P) (Option IssuedNonce)),
      (rest.foldl (History.record NodeOp.perform) trace).state.isFrozen
          programCid ↔
        (∃ op ∈ rest, op.frozenBy = some programCid) ∨
          trace.state.isFrozen programCid := by
    intro rest
    induction rest with
    | nil => simp
    | cons op rest ih =>
        intro trace
        rw [List.foldl_cons, ih, History.record, NodeOp.isFrozen_perform]
        simp only [List.mem_cons, exists_eq_or_imp, or_assoc]
        exact or_left_comm
  rw [runNode, History.run, hfold]
  simp [CraftSecNode.new, CraftSecNode.isFrozen]

/-- A request for a frozen program is refused before anything runs. -/
theorem CraftSecNode.processRequest_frozen {node : CraftSecNode E P}
    {request : AttestationRequest} (hfrozen : node.isFrozen request.programCid)
    (rng : Rng) :
    node.processRequest request rng =
      (Outcome.err (.programFrozen request.programCid), node, rng) := by
  rw [processRequest, if_pos hfrozen]

variable [Sha512]

/-- No frozen program gets anything out of either round: not a request, not a
signature with its own share, and not one with a nonce issued for it. -/
def FreezeEffective
    (trace : Trace (CraftSecNode E P) (Option IssuedNonce)) : Prop :=
  ∀ programCid, trace.state.isFrozen programCid →
    (∀ request rng, request.programCid = programCid → ∃ error,
      (trace.state.processRequest request rng).1 = Outcome.err error) ∧
    (∀ nonce message commitments, ∃ error,
      trace.state.signForProgram programCid nonce message commitments =
        Outcome.err error) ∧
    (∀ nonce, some ⟨programCid, nonce⟩ ∈ trace.events →
      ∀ message commitments, ∃ error,
        trace.state.sign nonce message commitments = Outcome.err error)

omit [ProgramExecutor E] in
/-- Round 2 answers whatever is frozen. -/
theorem CraftSecNode.sign_eq_ok (node : CraftSecNode E P)
    (nonce : SigningNonce) (message : Bytes)
    (commitments : List (SigningCommitment P)) :
    node.sign nonce message commitments =
      .ok ⟨honestPartial node.keyShare nonce message commitments⟩ := rfl

omit [ProgramExecutor E] in
theorem CraftSecNode.signForProgram_eq_ok (node : CraftSecNode E P)
    (programCid : String) (nonce : SigningNonce) (message : Bytes)
    (commitments : List (SigningCommitment P)) :
    node.signForProgram programCid nonce message commitments =
      .ok ⟨honestPartial (node.getKeyShare programCid) nonce message
        commitments⟩ := rfl

/-- Freezing is effective after exactly the runs that freeze nothing.  For a
frozen program requests are refused, and both signing calls still answer,
whatever nonce, message and commitments they are given. -/
theorem freeze_effective_iff (keyShare : KeyShare P) (registry : E)
    (ops : List (NodeOp P)) :
    (FreezeEffective (runNode keyShare registry ops) ↔
      ∀ op ∈ ops, op.frozenBy = none) ∧
    ∀ programCid,
      (runNode keyShare registry ops).state.isFrozen programCid →
      (∀ request rng, request.programCid = programCid →
        ((runNode keyShare registry ops).state.processRequest request rng).1 =
          Outcome.err (.programFrozen programCid)) ∧
      ∀ nonce message commitments,
        (∃ sig, (runNode keyShare registry ops).state.signForProgram programCid
          nonce message commitments = .ok sig) ∧
        ∃ sig, (runNode keyShare registry ops).state.sign nonce message
          commitments = .ok sig := by
  constructor
  · constructor
    · intro heffective op hop
      cases hfrozen : op.frozenBy with
      | none => rfl
      | some programCid =>
          have hstate := (isFrozen_runNode keyShare registry ops
            programCid).mpr ⟨op, hop, hfrozen⟩
          obtain ⟨-, hrefused, -⟩ := heffective programCid hstate
          obtain ⟨error, herror⟩ := hrefused ⟨0, 0, 0⟩ [] []
          rw [CraftSecNode.signForProgram_eq_ok] at herror
          cases herror
    · intro hnone programCid hfrozen
      obtain ⟨op, hop, hnamed⟩ :=
        (isFrozen_runNode keyShare registry ops programCid).mp hfrozen
      rw [hnone op hop] at hnamed
      cases hnamed
  · intro programCid hfrozen
    constructor
    · rintro request rng rfl
      rw [CraftSecNode.processRequest_frozen hfrozen]
    · intro nonce message commitments
      exact ⟨⟨_, CraftSecNode.signForProgram_eq_ok _ _ _ _ _⟩,
        ⟨_, CraftSecNode.sign_eq_ok _ _ _ _⟩⟩

omit [EdwardsGroup P] [ProgramExecutor E] [Sha512] in
/-- A request is approved, its program is frozen, and the nonce issued for it
is still signed with. -/
theorem frozen_program_signs :
    letI := sha512Reference
    let trace := runNode (linearShare 3 3 1)
      (approvingNode (linearShare 3 3 1) sampleTransaction).registry
      [.processRequest sampleRequest unitRng, .freezeProgram "Qm_transfer"]
    trace.state.isFrozen "Qm_transfer" ∧
      some ⟨"Qm_transfer", ⟨1, 1, 1⟩⟩ ∈ trace.events ∧
      (∃ sig, trace.state.sign ⟨1, 1, 1⟩ (utf8 "message")
        [(⟨1, 1, 1⟩ : SigningNonce).commitment] = .ok sig) ∧
      (∃ sig, trace.state.signForProgram "Qm_transfer" ⟨1, 1, 1⟩
        (utf8 "message") [(⟨1, 1, 1⟩ : SigningNonce).commitment] = .ok sig) ∧
      ¬ FreezeEffective trace := by
  let _ := sha512Reference
  intro trace
  have hfrozen : trace.state.isFrozen "Qm_transfer" :=
    (isFrozen_runNode _ _ _ _).mpr ⟨.freezeProgram "Qm_transfer", by simp, rfl⟩
  refine ⟨hfrozen, ?_, ⟨_, CraftSecNode.sign_eq_ok _ _ _ _⟩,
    ⟨_, CraftSecNode.signForProgram_eq_ok _ _ _ _ _⟩, ?_⟩
  · decide +kernel
  · intro heffective
    obtain ⟨-, hrefused, -⟩ := heffective "Qm_transfer" hfrozen
    obtain ⟨error, herror⟩ := hrefused ⟨1, 1, 1⟩ [] []
    rw [CraftSecNode.signForProgram_eq_ok] at herror
    cases herror

end CraftSec
