/-
The service that a deployment is for, without keys, nonces or messages: nodes
approve requests for programs that they have not frozen, and enough approvals
attest the first approved transaction.
-/
import CraftSec.Client.P2p

namespace CraftSec

section Abstract

/-- What a deployment is for: some of its nodes approve a request, unless they
have frozen the program, and enough of them attest the first approved
transaction. -/
structure Service where
  count : ℕ
  threshold : ℕ
  verdict : ℕ → AttestationRequest → Option Transaction
  frozen : ℕ → Finset String

/-- What a call to the service is answered with. -/
inductive ServiceVerdict where
  | attested (tx : Transaction)
  | tooFew (approvals : ℕ)
  | served
deriving DecidableEq

namespace Service

/-- The transaction that node `i` approves. -/
def approved (service : Service) (request : AttestationRequest) (i : ℕ) :
    Option Transaction :=
  if request.programCid ∈ service.frozen i then none
  else service.verdict i request

/-- The nodes that approve, in their order. -/
def approvers (service : Service) (request : AttestationRequest) : List ℕ :=
  (List.range service.count).filter fun i =>
    (service.approved request i).isSome

def attest (service : Service) (request : AttestationRequest) :
    ServiceVerdict :=
  if service.threshold ≤ (service.approvers request).length then
    match (service.approvers request).head?.bind (service.approved request) with
    | some tx => .attested tx
    | none => .tooFew 0
  else .tooFew (service.approvers request).length

theorem attest_of_enough {service : Service} {request : AttestationRequest}
    {tx : Transaction}
    (henough : service.threshold ≤ (service.approvers request).length)
    (hfirst : (service.approvers request).head?.bind
      (service.approved request) = some tx) :
    service.attest request = .attested tx := by
  rw [attest, if_pos henough, hfirst]

theorem attest_of_few {service : Service} {request : AttestationRequest}
    (hfew : (service.approvers request).length < service.threshold) :
    service.attest request = .tooFew (service.approvers request).length := by
  rw [attest, if_neg (Nat.not_le_of_lt hfew)]

def freeze (service : Service) (i : ℕ) (programCid : String) : Service :=
  { service with
    frozen := Function.update service.frozen i
      (insert programCid (service.frozen i)) }

end Service

end Abstract

/-- What happens to a deployment: something goes on over the transport, a node
is administered, or all shares are rotated. -/
inductive ServiceOp (P : Type) where
  | use (op : ClientOp P)
  | registerKey (node : ℕ) (programCid : String) (keyShare : KeyShare P)
  | freezeProgram (node : ℕ) (programCid : String)
  | migrateProgram (node : ℕ) (oldCid newCid : String)
  | rotate (newConfig : ThresholdConfig) (rng : Rng)

/-- What the operation is for the service: only attestations have an answer
that says something, and only freezing matters to later ones. -/
def Service.serve {P : Type} (service : Service) :
    ServiceOp P → ServiceVerdict × Service
  | .use (.attest request) => (service.attest request, service)
  | .use (.round _) => (.served, service)
  | .registerKey _ _ _ => (.served, service)
  | .freezeProgram i programCid => (.served, service.freeze i programCid)
  | .migrateProgram i oldCid _ => (.served, service.freeze i oldCid)
  | .rotate _ _ => (.served, service)

/-- The node and the program that an operation freezes. -/
def ServiceOp.freezes {P : Type} : ServiceOp P → Option (ℕ × String)
  | .freezeProgram i programCid => some (i, programCid)
  | .migrateProgram i oldCid _ => some (i, oldCid)
  | _ => none

/-- The request that an operation puts to the programs of nodes. -/
def ServiceOp.asks {P : Type} : ServiceOp P → Option AttestationRequest
  | .use (.attest request) => some request
  | .use (.round (.round1 _ request)) => some request
  | _ => none

namespace Service

/-- The step lemma: a node has frozen what it had, and what it was told to. -/
theorem mem_frozen_serve {P : Type} (service : Service) (op : ServiceOp P)
    (i : ℕ) (programCid : String) :
    programCid ∈ (service.serve op).2.frozen i ↔
      op.freezes = some (i, programCid) ∨ programCid ∈ service.frozen i := by
  have hfreeze : ∀ (j : ℕ) (frozenCid : String),
      programCid ∈ (service.freeze j frozenCid).frozen i ↔
        some (j, frozenCid) = some (i, programCid) ∨
          programCid ∈ service.frozen i := by
    intro j frozenCid
    rw [freeze]
    by_cases hij : i = j
    · subst hij
      simp [eq_comm]
    · simp [Function.update_of_ne hij, Ne.symm hij]
  cases op with
  | use op => cases op <;> simp [serve, ServiceOp.freezes]
  | registerKey => simp [serve, ServiceOp.freezes]
  | freezeProgram j frozenCid => exact hfreeze j frozenCid
  | migrateProgram j oldCid newCid => exact hfreeze j oldCid
  | rotate => simp [serve, ServiceOp.freezes]

/-- Everything but the frozen programs stays. -/
theorem serve_fixed {P : Type} (service : Service) (op : ServiceOp P) :
    (service.serve op).2.count = service.count ∧
      (service.serve op).2.threshold = service.threshold ∧
      (service.serve op).2.verdict = service.verdict := by
  cases op with
  | use op => cases op <;> exact ⟨rfl, rfl, rfl⟩
  | registerKey => exact ⟨rfl, rfl, rfl⟩
  | freezeProgram => exact ⟨rfl, rfl, rfl⟩
  | migrateProgram => exact ⟨rfl, rfl, rfl⟩
  | rotate => exact ⟨rfl, rfl, rfl⟩

/-- The nodes that still approve a request after some operations. -/
def remaining {P : Type} (service : Service) (ops : List (ServiceOp P))
    (request : AttestationRequest) : List ℕ :=
  (service.approvers request).filter fun i =>
    (i, request.programCid) ∉ ops.filterMap ServiceOp.freezes

/-- The service after a run, by what the run froze. -/
theorem serve_run {P : Type} (service : Service) (ops : List (ServiceOp P)) :
    let after := (Simulation.answers serve service ops).2
    after.count = service.count ∧ after.threshold = service.threshold ∧
      after.verdict = service.verdict ∧
      ∀ i programCid, programCid ∈ after.frozen i ↔
        (i, programCid) ∈ ops.filterMap ServiceOp.freezes ∨
          programCid ∈ service.frozen i := by
  induction ops generalizing service with
  | nil => simp [Simulation.answers]
  | cons op rest ih =>
      obtain ⟨hcount, hthreshold, hverdict, hfrozen⟩ :=
        ih (service.serve op).2
      obtain ⟨hcount', hthreshold', hverdict'⟩ := service.serve_fixed op
      refine ⟨hcount.trans hcount', hthreshold.trans hthreshold',
        hverdict.trans hverdict', ?_⟩
      intro i programCid
      rw [Simulation.answers]
      simp only
      rw [hfrozen, mem_frozen_serve]
      cases hop : op.freezes with
      | none => simp [hop]
      | some freeze =>
          rw [List.filterMap_cons_some hop, List.mem_cons, Option.some.injEq,
            eq_comm (a := freeze)]
          exact or_left_comm.trans or_assoc.symm

theorem approved_run {P : Type} (service : Service) (ops : List (ServiceOp P))
    (request : AttestationRequest) (i : ℕ) :
    (Simulation.answers serve service ops).2.approved request i =
      if (i, request.programCid) ∈ ops.filterMap ServiceOp.freezes then none
      else service.approved request i := by
  obtain ⟨-, -, hverdict, hfrozen⟩ := service.serve_run ops
  rw [approved, approved, hverdict]
  simp only [hfrozen]
  by_cases hops : (i, request.programCid) ∈ ops.filterMap ServiceOp.freezes
  · rw [if_pos (Or.inl hops), if_pos hops]
  · rw [if_neg hops]
    simp only [hops, false_or]

theorem approvers_run {P : Type} (service : Service)
    (ops : List (ServiceOp P)) (request : AttestationRequest) :
    (Simulation.answers serve service ops).2.approvers request =
      service.remaining ops request := by
  obtain ⟨hcount, -⟩ := service.serve_run ops
  rw [remaining, approvers, approvers, hcount, List.filter_filter]
  apply List.filter_congr
  intro i _
  rw [approved_run]
  by_cases hops : (i, request.programCid) ∈ ops.filterMap ServiceOp.freezes
  · simp [hops]
  · simp [hops]

/-- With enough approvals, and some asked for, there is a first one. -/
theorem exists_attested (service : Service) (request : AttestationRequest)
    (hpositive : 1 ≤ service.threshold)
    (henough : service.threshold ≤ (service.approvers request).length) :
    ∃ first tx, (service.approvers request).head? = some first ∧
      service.approved request first = some tx ∧
      service.attest request = .attested tx := by
  cases happrovers : service.approvers request with
  | nil =>
      rw [happrovers, List.length_nil] at henough
      omega
  | cons first rest =>
      have hmem : first ∈ service.approvers request := by
        rw [happrovers]
        exact List.mem_cons_self
      obtain ⟨tx, htx⟩ :=
        Option.isSome_iff_exists.mp (List.mem_filter.mp hmem).2
      refine ⟨first, tx, rfl, htx, attest_of_enough henough ?_⟩
      rw [happrovers]
      exact htx

end Service

end CraftSec
