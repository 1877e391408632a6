/-
The two `unwrap`s of an attestation.  They rely on what the collection loop
left behind, which depends on the threshold and on the nodes' answers alone;
neither is checked by the client.
-/
import CraftSec.Client.Agreement

namespace CraftSec

section Answers

variable {P : Type}

/-- The node answered with a transaction. -/
def Round1Response.approves (resp : Round1Response P) : Bool :=
  match resp.result with
  | .valid _ => true
  | .invalid _ => false

/-- The answers of the nodes that answered. -/
def answered (outcomes : List (Outcome (Round1Response P))) :
    List (Round1Response P) :=
  outcomes.filterMap Except.toOption

/-- The approvals among the nodes' answers. -/
def approvalAnswers (outcomes : List (Outcome (Round1Response P))) :
    List (Round1Response P) :=
  (answered outcomes).filter Round1Response.approves

/-- The answers that keep both `unwrap`s from failing.  Without a threshold the
client settles for the first node that answers; otherwise for the first
`threshold` approvals, if there are that many. -/
def SafeAnswers (threshold : ℕ)
    (outcomes : List (Outcome (Round1Response P))) : Prop :=
  if threshold = 0 then
    ∃ resp ∈ (answered outcomes).head?,
      resp.approves = true ∧ resp.commitment ≠ none
  else
    (approvalAnswers outcomes).length < threshold ∨
      ∀ resp ∈ (approvalAnswers outcomes).take threshold, resp.commitment ≠ none

/-- The answers that the collection loop stops with. -/
def settledFor (threshold : ℕ)
    (outcomes : List (Outcome (Round1Response P))) : List (Round1Response P) :=
  if threshold = 0 then
    ((answered outcomes).take 1).filter Round1Response.approves
  else
    (approvalAnswers outcomes).take threshold

theorem settledFor_subset (threshold : ℕ)
    (outcomes : List (Outcome (Round1Response P))) :
    settledFor threshold outcomes ⊆ approvalAnswers outcomes := by
  rw [settledFor]
  split
  next =>
    intro resp hresp
    obtain ⟨htaken, happroves⟩ := List.mem_filter.mp hresp
    exact List.mem_filter.mpr ⟨List.mem_of_mem_take htaken, happroves⟩
  next => exact List.take_subset _ _

/-- Both `unwrap`s succeed on what the loop stops with, or are not reached. -/
theorem safeAnswers_iff (threshold : ℕ)
    (outcomes : List (Outcome (Round1Response P))) :
    SafeAnswers threshold outcomes ↔
      (settledFor threshold outcomes).length < threshold ∨
        settledFor threshold outcomes ≠ [] ∧
          ∀ resp ∈ settledFor threshold outcomes, resp.commitment ≠ none := by
  rw [SafeAnswers, settledFor]
  by_cases hzero : threshold = 0
  · subst hzero
    rw [if_pos rfl, if_pos rfl]
    cases answered outcomes with
    | nil => simp
    | cons resp rest =>
        cases happroves : resp.approves with
        | false => simp [happroves]
        | true => simp [happroves]
  · rw [if_neg hzero, if_neg hzero]
    constructor
    · rintro (hfew | hall)
      · left
        rw [List.length_take]
        omega
      · by_cases hfew : (approvalAnswers outcomes).length < threshold
        · left
          rw [List.length_take]
          omega
        · right
          refine ⟨?_, hall⟩
          rw [← List.length_pos_iff, List.length_take]
          omega
    · rintro (hfew | ⟨-, hall⟩)
      · left
        rw [List.length_take] at hfew
        omega
      · exact Or.inr hall

end Answers

section Loops

variable {T P : Type} [NodeTransport T P]

/-- What the nodes answer when they are asked one after the other. -/
def poll (request : AttestationRequest) :
    List ℕ → T → List (Outcome (Round1Response P))
  | [], _ => []
  | i :: rest, transport =>
      let (outcome, transport) := NodeTransport.round1 transport i request
      outcome :: poll request rest transport

variable (T P) in
/-- Every call to a node returns a value or an error. -/
structure CallsReturn : Prop where
  round1 : ∀ (transport : T) (i : ℕ) (request : AttestationRequest),
    (NodeTransport.round1 transport i request).1 ≠ Outcome.panic
  round2 : ∀ (transport : T) (i : ℕ) (message : Bytes)
    (commitments : List (SigningCommitment P)),
    (NodeTransport.round2 transport i message commitments).1 ≠ Outcome.panic

/-- What asking a node comes to. -/
theorem CallsReturn.round1_cases (hreturns : CallsReturn T P) (transport : T)
    (i : ℕ) (request : AttestationRequest) :
    (∃ error after, NodeTransport.round1 (P := P) transport i request =
        (.error (.err error), after)) ∨
      ∃ (resp : Round1Response P) (after : T),
        NodeTransport.round1 transport i request = (.ok resp, after) := by
  have hreturn := hreturns.round1 transport i request
  cases hround1 : NodeTransport.round1 (P := P) transport i request with
  | mk outcome after =>
      rw [hround1] at hreturn
      rcases outcome with (error | -) | resp
      · exact Or.inl ⟨error, after, rfl⟩
      · exact absurd rfl hreturn
      · exact Or.inr ⟨resp, after, rfl⟩

theorem poll_cons {request : AttestationRequest} {i : ℕ} {transport after : T}
    {outcome : Outcome (Round1Response P)}
    (hround1 : NodeTransport.round1 transport i request = (outcome, after))
    (rest : List ℕ) :
    poll request (i :: rest) transport = outcome :: poll request rest after := by
  rw [poll, hround1]

omit [NodeTransport T P] in
theorem add_of_declines {resp : Round1Response P}
    (hdeclines : resp.approves = false) (collected : Collected P) (i : ℕ) :
    collected.add i resp = collected := by
  obtain ⟨result, commitment⟩ := resp
  cases result with
  | valid tx => cases hdeclines
  | invalid reason => rfl

omit [NodeTransport T P] in
theorem responses_add_of_approves {resp : Round1Response P}
    (happroves : resp.approves = true) (collected : Collected P) (i : ℕ) :
    (collected.add i resp).validResponses =
      collected.validResponses ++ [(i, resp)] := by
  obtain ⟨result, commitment⟩ := resp
  cases result with
  | valid tx => rfl
  | invalid reason => cases happroves

omit [NodeTransport T P] in
theorem length_add_of_approves {resp : Round1Response P}
    (happroves : resp.approves = true) (collected : Collected P) (i : ℕ) :
    (collected.add i resp).validResponses.length =
      collected.validResponses.length + 1 := by
  rw [responses_add_of_approves happroves, List.length_append,
    List.length_singleton]

omit [NodeTransport T P] in
/-- An answer is one more approval, or none. -/
theorem approvalAnswers_cons_of_approves {resp : Round1Response P}
    (happroves : resp.approves = true)
    (outcomes : List (Outcome (Round1Response P))) :
    approvalAnswers (.ok resp :: outcomes) = resp :: approvalAnswers outcomes :=
  List.filter_cons_of_pos happroves

omit [NodeTransport T P] in
theorem approvalAnswers_cons_of_declines {resp : Round1Response P}
    (hdeclines : resp.approves = false)
    (outcomes : List (Outcome (Round1Response P))) :
    approvalAnswers (.ok resp :: outcomes) = approvalAnswers outcomes :=
  List.filter_cons_of_neg (by simp [hdeclines])

/-- Without a threshold the first answer ends the loop. -/
theorem collect_zero (hreturns : CallsReturn T P) (request : AttestationRequest)
    (indices : List ℕ) (collected : Collected P) (transport : T) :
    ∃ collected' after,
      collect 0 request indices collected transport = (.ok collected', after) ∧
      collected'.validResponses.map Prod.snd =
        collected.validResponses.map Prod.snd ++
          ((answered (poll request indices transport)).take 1).filter
            Round1Response.approves := by
  induction indices generalizing transport with
  | nil => exact ⟨collected, transport, rfl, by simp [poll, answered]⟩
  | cons i rest ih =>
      rcases hreturns.round1_cases transport i request with
        ⟨error, after, hround1⟩ | ⟨resp, after, hround1⟩
      · obtain ⟨collected', last, hcollect, hresponses⟩ := ih after
        refine ⟨collected', last, ?_, ?_⟩
        · rw [collect_cons_err hround1, hcollect]
        · rw [poll_cons hround1]
          exact hresponses
      · refine ⟨collected.add i resp, after, ?_, ?_⟩
        · rw [collect_cons_ok hround1, if_pos (Nat.zero_le _)]
        · rw [poll_cons hround1]
          change _ = _ ++ [resp].filter Round1Response.approves
          cases happroves : resp.approves with
          | false => simp [add_of_declines, happroves]
          | true => simp [responses_add_of_approves, happroves]

/-- With a threshold the loop goes on to the approval that fills it. -/
theorem collect_pos (hreturns : CallsReturn T P) {threshold : ℕ}
    (request : AttestationRequest) (indices : List ℕ) (collected : Collected P)
    (transport : T) (hopen : collected.validResponses.length < threshold) :
    ∃ collected' after,
      collect threshold request indices collected transport =
        (.ok collected', after) ∧
      collected'.validResponses.map Prod.snd =
        collected.validResponses.map Prod.snd ++
          (approvalAnswers (poll request indices transport)).take
            (threshold - collected.validResponses.length) := by
  induction indices generalizing collected transport with
  | nil =>
      exact ⟨collected, transport, rfl,
        by simp [poll, approvalAnswers, answered]⟩
  | cons i rest ih =>
      rcases hreturns.round1_cases transport i request with
        ⟨error, after, hround1⟩ | ⟨resp, after, hround1⟩
      · obtain ⟨collected', last, hcollect, hresponses⟩ :=
          ih collected after hopen
        refine ⟨collected', last, ?_, ?_⟩
        · rw [collect_cons_err hround1, hcollect]
        · rw [poll_cons hround1]
          exact hresponses
      · rw [collect_cons_ok hround1, poll_cons hround1]
        cases happroves : resp.approves with
        | false =>
            rw [add_of_declines happroves, if_neg (Nat.not_le_of_lt hopen),
              approvalAnswers_cons_of_declines happroves]
            exact ih collected after hopen
        | true =>
            have hadd := responses_add_of_approves happroves collected i
            have hlength := length_add_of_approves happroves collected i
            obtain ⟨missing, hmissing⟩ : ∃ missing,
                threshold - collected.validResponses.length = missing + 1 :=
              ⟨threshold - collected.validResponses.length - 1, by omega⟩
            rw [approvalAnswers_cons_of_approves happroves, hmissing,
              List.take_succ_cons]
            by_cases hfull : threshold ≤
                (collected.add i resp).validResponses.length
            · have hlast : missing = 0 := by omega
              refine ⟨_, after, if_pos hfull, ?_⟩
              rw [hadd, hlast, List.map_append]
              rfl
            · obtain ⟨collected', last, hcollect, hresponses⟩ :=
                ih (collected.add i resp) after (Nat.lt_of_not_le hfull)
              refine ⟨collected', last, ?_, ?_⟩
              · rw [if_neg hfull, hcollect]
              · have hrest : threshold -
                    (collected.add i resp).validResponses.length =
                    missing := by omega
                rw [hresponses, hrest, hadd, List.map_append,
                  List.append_assoc]
                rfl

/-- The loop's variables agree on whether anybody approved. -/
def Collected.Consistent (collected : Collected P) : Prop :=
  collected.transaction = none ↔ collected.validResponses = []

omit [NodeTransport T P] in
theorem Collected.Consistent.add {collected : Collected P}
    (hconsistent : collected.Consistent) (i : ℕ) (resp : Round1Response P) :
    (collected.add i resp).Consistent := by
  obtain ⟨result, commitment⟩ := resp
  cases result with
  | valid tx => simp [Collected.add, Collected.Consistent]
  | invalid reason => exact hconsistent

theorem collect_consistent {threshold : ℕ} {request : AttestationRequest}
    {indices : List ℕ} {collected collected' : Collected P} {transport after : T}
    (hconsistent : collected.Consistent)
    (hcollect : collect threshold request indices collected transport =
      (.ok collected', after)) :
    collected'.Consistent := by
  induction indices generalizing collected transport with
  | nil =>
      cases hcollect
      exact hconsistent
  | cons i rest ih =>
      rw [collect] at hcollect
      split at hcollect
      next => cases hcollect
      next => exact ih hconsistent hcollect
      next resp _ _ =>
        have hadd := hconsistent.add i resp
        dsimp only at hcollect
        split at hcollect
        next =>
          cases hcollect
          exact hadd
        next => exact ih hadd hcollect

/-- The loop ends, with the answers that the nodes' answers determine. -/
theorem collect_settles (hreturns : CallsReturn T P) (threshold : ℕ)
    (request : AttestationRequest) (indices : List ℕ) (transport : T) :
    ∃ collected after,
      collect threshold request indices ⟨[], none⟩ transport =
        (.ok collected, after) ∧
      collected.validResponses.map Prod.snd =
        settledFor threshold (poll request indices transport) ∧
      collected.Consistent := by
  have hstart : (⟨[], none⟩ : Collected P).Consistent := by
    simp [Collected.Consistent]
  rw [settledFor]
  split
  next hzero =>
    obtain ⟨collected, after, hcollect, hresponses⟩ :=
      collect_zero hreturns request indices ⟨[], none⟩ transport
    rw [hzero]
    exact ⟨collected, after, hcollect, hresponses,
      collect_consistent hstart hcollect⟩
  next hpos =>
    obtain ⟨collected, after, hcollect, hresponses⟩ :=
      collect_pos hreturns request indices ⟨[], none⟩ transport
        (Nat.pos_of_ne_zero hpos)
    exact ⟨collected, after, hcollect, hresponses,
      collect_consistent hstart hcollect⟩

omit [NodeTransport T P] in
/-- An error is passed on between calls of different types. -/
theorem error_ne_panic {A B : Type} {abort : Abort}
    (hreturn : (.error abort : Outcome A) ≠ Outcome.panic) :
    (.error abort : Outcome B) ≠ Outcome.panic :=
  fun hpanic => hreturn (congrArg Except.error (Except.error.inj hpanic))

theorem ok_ne_panic {A : Type} (a : A) :
    (.ok a : Outcome A) ≠ Outcome.panic := by
  intro hpanic
  cases hpanic

theorem err_ne_panic {A : Type} (error : CraftSecError) :
    (Outcome.err error : Outcome A) ≠ Outcome.panic := by
  intro hpanic
  cases hpanic

theorem requestPartials_ne_panic (hreturns : CallsReturn T P) (message : Bytes)
    (commitments : List (SigningCommitment P)) (nodes : List ℕ) (transport : T) :
    (requestPartials message commitments nodes transport).1 ≠
      Outcome.panic := by
  induction nodes generalizing transport with
  | nil => exact ok_ne_panic _
  | cons node rest ih =>
      have hreturn := hreturns.round2 transport node message commitments
      rw [requestPartials]
      cases hround2 : NodeTransport.round2 transport node message
          commitments with
      | mk result after =>
          rw [hround2] at hreturn
          cases result with
          | error abort => exact error_ne_panic hreturn
          | ok resp =>
              have hrest := ih after
              dsimp only
              cases hpartials : requestPartials message commitments rest
                  after with
              | mk result last =>
                  rw [hpartials] at hrest
                  cases result with
                  | error abort => exact error_ne_panic hrest
                  | ok partials => exact ok_ne_panic _

omit [NodeTransport T P] in
/-- The second `unwrap`, over all collected responses. -/
theorem mapM_unwrap_commitment (responses : List (ℕ × Round1Response P)) :
    (∃ commitments, responses.mapM (fun entry => unwrap entry.2.commitment) =
        .ok commitments ∧
      ∀ resp ∈ responses.map Prod.snd, resp.commitment ≠ none) ∨
    (responses.mapM (fun entry => unwrap entry.2.commitment) =
        Outcome.panic ∧
      ¬ ∀ resp ∈ responses.map Prod.snd, resp.commitment ≠ none) := by
  induction responses with
  | nil => exact Or.inl ⟨[], rfl, by simp⟩
  | cons entry rest ih =>
      rw [List.mapM_cons, List.map_cons, List.forall_mem_cons]
      cases hcommitment : entry.2.commitment with
      | none => exact Or.inr ⟨rfl, by simp⟩
      | some commitment =>
          rw [unwrap_some, ok_bind]
          rcases ih with ⟨commitments, heq, hall⟩ | ⟨heq, hnot⟩
          · exact Or.inl ⟨_, by rw [heq, ok_bind]; rfl, by simp, hall⟩
          · exact Or.inr ⟨by rw [heq]; rfl, fun hall => hnot hall.2⟩

variable [EdwardsGroup P] [DecidableEq P] [Sha512] [FloatFormat]

omit [NodeTransport T P] [FloatFormat] in
theorem verify_ne_panic (signature : ThresholdSignature P) (publicKey : P)
    (message : Bytes) : verify signature publicKey message ≠ Outcome.panic := by
  rw [verify]
  split
  next => exact ok_ne_panic _
  next => exact err_ne_panic _

/-- What follows the loop returns exactly if too few approved, or somebody did
and every approval carries a commitment. -/
theorem finish_ne_panic_iff (hreturns : CallsReturn T P) (groupPublicKey : P)
    (threshold : ℕ) {collected : Collected P}
    (hconsistent : collected.Consistent) (transport : T) :
    (finish groupPublicKey threshold collected transport).1 ≠ Outcome.panic ↔
      collected.validResponses.length < threshold ∨
        collected.validResponses ≠ [] ∧
          ∀ resp ∈ collected.validResponses.map Prod.snd,
            resp.commitment ≠ none := by
  rw [finish]
  split
  next hfew => exact ⟨fun _ => Or.inl hfew, fun _ => err_ne_panic _⟩
  next henough =>
    rw [or_iff_right henough]
    cases htransaction : collected.transaction with
    | none =>
        have hnone := hconsistent.mp htransaction
        exact ⟨fun hpanic => absurd rfl hpanic, fun hall => absurd hnone hall.1⟩
    | some transaction =>
        have hsome : collected.validResponses ≠ [] := by
          intro hnone
          rw [hconsistent.mpr hnone] at htransaction
          cases htransaction
        rw [unwrap_some]
        dsimp only
        rcases mapM_unwrap_commitment collected.validResponses with
          ⟨commitments, heq, hall⟩ | ⟨heq, hnot⟩
        · have hpartials := requestPartials_ne_panic hreturns
            transaction.signingBytes commitments
            (collected.validResponses.map Prod.fst) transport
          rw [heq]
          refine ⟨fun _ => ⟨hsome, hall⟩, fun _ => ?_⟩
          dsimp only
          cases hrequest : requestPartials transaction.signingBytes commitments
              (collected.validResponses.map Prod.fst) transport with
          | mk result last =>
              rw [hrequest] at hpartials
              cases result with
              | error abort => exact error_ne_panic hpartials
              | ok partials =>
                  have hverify := verify_ne_panic
                    (aggregate transaction.signingBytes commitments partials)
                    groupPublicKey transaction.signingBytes
                  dsimp only
                  cases hrejected : verify
                      (aggregate transaction.signingBytes commitments partials)
                      groupPublicKey transaction.signingBytes with
                  | error abort =>
                      rw [hrejected] at hverify
                      exact error_ne_panic hverify
                  | ok _ => exact ok_ne_panic _
        · rw [heq]
          exact ⟨fun hpanic => absurd rfl hpanic, fun hall => absurd hall.2 hnot⟩

/-- An attestation that no node can crash: it returns or fails, and it fails
when nobody approves. -/
structure CraftSecClient.Survives (client : CraftSecClient T P)
    (request : AttestationRequest) : Prop where
  returns : (client.attest request).1 ≠ Outcome.panic
  refuses : approvalAnswers (poll request (List.range client.nodeCount)
      client.transport) = [] →
    ∃ error, (client.attest request).1 = Outcome.err error

/-- The nodes cannot crash the client exactly when their answers keep both
`unwrap`s from failing. -/
theorem attest_survives_iff (hreturns : CallsReturn T P)
    (client : CraftSecClient T P) (request : AttestationRequest) :
    client.Survives request ↔
      SafeAnswers client.threshold.toNat
        (poll request (List.range client.nodeCount) client.transport) := by
  obtain ⟨collected, after, hcollect, hresponses, hconsistent⟩ :=
    collect_settles hreturns client.threshold.toNat request
      (List.range client.nodeCount) client.transport
  have hattest : client.attest request =
      finish client.groupPublicKey client.threshold.toNat collected after := by
    rw [CraftSecClient.attest, hcollect]
  have hlength : (settledFor client.threshold.toNat
      (poll request (List.range client.nodeCount) client.transport)).length =
      collected.validResponses.length := by
    rw [← hresponses, List.length_map]
  have hreturn : (client.attest request).1 ≠ Outcome.panic ↔
      SafeAnswers client.threshold.toNat
        (poll request (List.range client.nodeCount) client.transport) := by
    rw [hattest, finish_ne_panic_iff hreturns _ _ hconsistent, safeAnswers_iff,
      hlength, ← hresponses, Ne, Ne, List.map_eq_nil_iff]
  constructor
  · exact fun hsurvives => hreturn.mp hsurvives.returns
  · intro hsafe
    refine ⟨hreturn.mpr hsafe, fun hnobody => ?_⟩
    have hnone : settledFor client.threshold.toNat
        (poll request (List.range client.nodeCount) client.transport) = [] :=
      List.eq_nil_of_subset_nil (hnobody ▸ settledFor_subset _ _)
    have hfew : collected.validResponses.length < client.threshold.toNat := by
      rcases (safeAnswers_iff _ _).mp hsafe with hfew | ⟨hsome, -⟩
      · rwa [hlength] at hfew
      · exact absurd hnone hsome
    rw [hattest, finish, if_pos hfew]
    exact ⟨_, rfl⟩

end Loops

section Samples

/-- Nodes that answer round 1 as written down and do not answer round 2. -/
abbrev ScriptedNodes (P : Type) :=
  ℕ → Except CraftSecError (Round1Response P)

instance (P : Type) : NodeTransport (ScriptedNodes P) P where
  round1 script i _ :=
    (match script i with
      | .ok resp => .ok resp
      | .error error => Outcome.err error, script)
  round2 script _ _ _ :=
    (Outcome.err (.invalidSignature "no nonce"), script)

theorem scriptedNodes_callsReturn (P : Type) :
    CallsReturn (ScriptedNodes P) P where
  round1 script i request := by
    change (match script i with
      | .ok resp => .ok resp
      | .error error => Outcome.err error : Outcome (Round1Response P)) ≠
        Outcome.panic
    split
    next => exact ok_ne_panic _
    next => exact err_ne_panic _
  round2 _ _ _ _ := err_ne_panic _

/-- A client that asks scripted nodes. -/
def scriptedClient (threshold : UInt32) (nodeCount : ℕ)
    (script : ScriptedNodes ReferencePoint) :
    CraftSecClient (ScriptedNodes ReferencePoint) ReferencePoint where
  transport := script
  groupPublicKey := basepointMul (3 : ℕ)
  threshold := threshold
  nodeCount := nodeCount

/-- An approval without a commitment. -/
def bareApproval : Round1Response ReferencePoint :=
  ⟨.valid sampleTransaction, none⟩

/-- One approval does not reach a threshold of two. -/
theorem attest_survives_one_approval :
    letI := sha512Reference
    letI := floatFormatReference
    (scriptedClient 2 3 fun i =>
      if i = 1 then .ok bareApproval
      else .error (.attestationFailed "offline")).Survives sampleRequest := by
  let _ := sha512Reference
  let _ := floatFormatReference
  apply (attest_survives_iff (scriptedNodes_callsReturn _) _ _).mpr
  exact Or.inl (by decide +kernel)

/-- A client without threshold and nodes crashes, a node that approves without
a commitment crashes a client with threshold one, and one that rejects crashes
a client without threshold. -/
theorem attest_crashes :
    letI := sha512Reference
    letI := floatFormatReference
    CallsReturn (ScriptedNodes ReferencePoint) ReferencePoint ∧
    (∀ script, ((scriptedClient 0 0 script).attest sampleRequest).1 =
      Outcome.panic) ∧
    ((scriptedClient 1 1 fun _ => .ok bareApproval).attest sampleRequest).1 =
      Outcome.panic ∧
    ((scriptedClient 0 1 fun _ => .ok ⟨.invalid "no", none⟩).attest
      sampleRequest).1 = Outcome.panic ∧
    ¬ ∀ (client : CraftSecClient (ScriptedNodes ReferencePoint)
        ReferencePoint) (request : AttestationRequest),
      client.Survives request := by
  let _ := sha512Reference
  let _ := floatFormatReference
  have hnobody : ∀ script,
      ((scriptedClient 0 0 script).attest sampleRequest).1 = Outcome.panic :=
    fun _ => rfl
  refine ⟨scriptedNodes_callsReturn _, hnobody, rfl, rfl, fun hall => ?_⟩
  exact (hall (scriptedClient 0 0 fun _ => .ok bareApproval)
    sampleRequest).returns (hnobody _)

end Samples

end CraftSec
