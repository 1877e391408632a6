/-
The client's attestation flow: collect approvals until the threshold, have the
answering nodes sign the first approved transaction, aggregate and verify.
-/
import CraftSec.Client.Transport

namespace CraftSec

open History (Trace)

/-- The final attested transaction with its threshold signature. -/
structure AttestedTransaction (P : Type) where
  transaction : Transaction
  signature : ThresholdSignature P
  groupPublicKey : P
deriving DecidableEq

/-- `AttestedTransaction::verify`. -/
def AttestedTransaction.verify {P : Type} [EdwardsGroup P] [DecidableEq P]
    [Sha512] [FloatFormat] (attested : AttestedTransaction P) : Outcome Unit :=
  CraftSec.verify attested.signature attested.groupPublicKey
    attested.transaction.signingBytes

/-- `CraftSecClient`. -/
structure CraftSecClient (T P : Type) where
  transport : T
  groupPublicKey : P
  threshold : UInt32
  nodeCount : ℕ

/-- The local variables of the collection loop: the nodes that approved, with
their answers, and the first approved transaction. -/
structure Collected (P : Type) where
  validResponses : List (ℕ × Round1Response P)
  transaction : Option Transaction

/-- What the loop body does with an answer of node `i`. -/
def Collected.add {P : Type} (collected : Collected P) (i : ℕ)
    (resp : Round1Response P) : Collected P :=
  match resp.result with
  | .valid tx =>
      { validResponses := collected.validResponses ++ [(i, resp)]
        transaction := collected.transaction.or (some tx) }
  | .invalid _ => collected

section Flow

variable {T P : Type} [NodeTransport T P]

/-- Round 1: the loop over the node indices.  A node that returns an error is
skipped before the threshold is looked at; a panic is not caught. -/
def collect (threshold : ℕ) (request : AttestationRequest) :
    List ℕ → Collected P → T → Outcome (Collected P) × T
  | [], collected, transport => (.ok collected, transport)
  | i :: rest, collected, transport =>
      match NodeTransport.round1 transport i request with
      | (.error .panic, transport) => (Outcome.panic, transport)
      | (.error (.err _), transport) =>
          collect threshold request rest collected transport
      | (.ok resp, transport) =>
          let collected := collected.add i resp
          if threshold ≤ collected.validResponses.length then
            (.ok collected, transport)
          else
            collect threshold request rest collected transport

/-- Round 2: the first failure ends the attestation. -/
def requestPartials (message : Bytes)
    (commitments : List (SigningCommitment P)) :
    List ℕ → T → Outcome (List PartialSignature) × T
  | [], transport => (.ok [], transport)
  | node :: rest, transport =>
      match NodeTransport.round2 transport node message commitments with
      | (.error abort, transport) => (.error abort, transport)
      | (.ok resp, transport) =>
          match requestPartials message commitments rest transport with
          | (.error abort, transport) => (.error abort, transport)
          | (.ok partials, transport) => (.ok (resp.part :: partials), transport)

variable [EdwardsGroup P] [DecidableEq P] [Sha512] [FloatFormat]

/-- What follows the collection loop. -/
def finish (groupPublicKey : P) (threshold : ℕ) (collected : Collected P)
    (transport : T) : Outcome (AttestedTransaction P) × T :=
  if collected.validResponses.length < threshold then
    (Outcome.err (.insufficientShares collected.validResponses.length
      threshold), transport)
  else
    match unwrap collected.transaction with
    | .error abort => (.error abort, transport)
    | .ok transaction =>
        let message := transaction.signingBytes
        match collected.validResponses.mapM fun entry =>
            unwrap entry.2.commitment with
        | .error abort => (.error abort, transport)
        | .ok commitments =>
            match requestPartials message commitments
                (collected.validResponses.map Prod.fst) transport with
            | (.error abort, transport) => (.error abort, transport)
            | (.ok partials, transport) =>
                let signature := aggregate message commitments partials
                match verify signature groupPublicKey message with
                | .error abort => (.error abort, transport)
                | .ok _ =>
                    (.ok ⟨transaction, signature, groupPublicKey⟩, transport)

/-- `CraftSecClient::attest`, with the transport as it is left. -/
def CraftSecClient.attest (client : CraftSecClient T P)
    (request : AttestationRequest) : Outcome (AttestedTransaction P) × T :=
  match collect client.threshold.toNat request (List.range client.nodeCount)
      ⟨[], none⟩ client.transport with
  | (.error abort, transport) => (.error abort, transport)
  | (.ok collected, transport) =>
      finish client.groupPublicKey client.threshold.toNat collected transport

end Flow

section Steps

variable {T P : Type} [NodeTransport T P]

/-- One pass of the collection loop, by what the node does. -/
theorem collect_cons_err {threshold : ℕ} {request : AttestationRequest}
    {i : ℕ} {rest : List ℕ} {collected : Collected P} {transport after : T}
    {error : CraftSecError}
    (hround1 : NodeTransport.round1 transport i request =
      (.error (.err error), after)) :
    collect threshold request (i :: rest) collected transport =
      collect threshold request rest collected after := by
  rw [collect, hround1]

theorem collect_cons_ok {threshold : ℕ} {request : AttestationRequest}
    {i : ℕ} {rest : List ℕ} {collected : Collected P} {transport after : T}
    {resp : Round1Response P}
    (hround1 : NodeTransport.round1 transport i request = (.ok resp, after)) :
    collect threshold request (i :: rest) collected transport =
      if threshold ≤ (collected.add i resp).validResponses.length then
        (.ok (collected.add i resp), after)
      else
        collect threshold request rest (collected.add i resp) after := by
  rw [collect, hround1]

theorem requestPartials_cons_ok {message : Bytes}
    {commitments : List (SigningCommitment P)} {node : ℕ} {rest : List ℕ}
    {transport next after : T} {resp : Round2Response}
    {partials : List PartialSignature}
    (hround2 : NodeTransport.round2 transport node message commitments =
      (.ok resp, next))
    (hrest : requestPartials message commitments rest next =
      (.ok partials, after)) :
    requestPartials message commitments (node :: rest) transport =
      (.ok (resp.part :: partials), after) := by
  rw [requestPartials, hround2]
  simp only [hrest]

end Steps

section Results

variable {T P : Type} [NodeTransport T P] [EdwardsGroup P] [DecidableEq P]
  [Sha512] [FloatFormat]

/-- After enough approvals with commitments and answered signing calls, only
the check of the aggregate is left. -/
theorem finish_eq {groupPublicKey : P} {threshold : ℕ}
    {collected : Collected P} {transport after : T}
    {transaction : Transaction} {commitments : List (SigningCommitment P)}
    {partials : List PartialSignature}
    (henough : threshold ≤ collected.validResponses.length)
    (htransaction : collected.transaction = some transaction)
    (hcommitments : collected.validResponses.mapM
      (fun entry => unwrap entry.2.commitment) = .ok commitments)
    (hpartials : requestPartials transaction.signingBytes commitments
      (collected.validResponses.map Prod.fst) transport =
        (.ok partials, after)) :
    finish groupPublicKey threshold collected transport =
      ((verify (aggregate transaction.signingBytes commitments partials)
          groupPublicKey transaction.signingBytes).map fun _ =>
        ⟨transaction, aggregate transaction.signingBytes commitments partials,
          groupPublicKey⟩, after) := by
  rw [finish, if_neg (Nat.not_lt_of_le henough), htransaction, unwrap_some]
  simp only [hcommitments, hpartials]
  cases verify (aggregate transaction.signingBytes commitments partials)
      groupPublicKey transaction.signingBytes <;> rfl

/-- What a successful attestation went through. -/
theorem attest_eq_ok {client : CraftSecClient T P}
    {request : AttestationRequest} {attested : AttestedTransaction P}
    {after : T} (hattest : client.attest request = (.ok attested, after)) :
    ∃ collected middle commitments partials,
      collect client.threshold.toNat request (List.range client.nodeCount)
          ⟨[], none⟩ client.transport = (.ok collected, middle) ∧
      client.threshold.toNat ≤ collected.validResponses.length ∧
      collected.transaction = some attested.transaction ∧
      collected.validResponses.mapM
          (fun entry => unwrap entry.2.commitment) = .ok commitments ∧
      requestPartials attested.transaction.signingBytes commitments
          (collected.validResponses.map Prod.fst) middle =
        (.ok partials, after) ∧
      attested.signature =
        aggregate attested.transaction.signingBytes commitments partials ∧
      attested.groupPublicKey = client.groupPublicKey ∧
      attested.verify = .ok ⟨⟩ := by
  rw [CraftSecClient.attest] at hattest
  split at hattest
  next => cases hattest
  next collected middle hcollect =>
    rw [finish] at hattest
    split at hattest
    next => cases hattest
    next henough =>
      split at hattest
      next => cases hattest
      next transaction hunwrap =>
        have htransaction : collected.transaction = some transaction := by
          cases htx : collected.transaction with
          | none =>
              rw [htx] at hunwrap
              cases hunwrap
          | some tx =>
              rw [htx] at hunwrap
              cases hunwrap
              rfl
        dsimp only at hattest
        split at hattest
        next => cases hattest
        next commitments hcommitments =>
          split at hattest
          next => cases hattest
          next partials last hpartials =>
            split at hattest
            next => cases hattest
            next hverify =>
              cases hattest
              exact ⟨collected, middle, commitments, partials, hcollect,
                Nat.le_of_not_lt henough, htransaction, hcommitments,
                hpartials, rfl, rfl, hverify⟩

end Results

end CraftSec
