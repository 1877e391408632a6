/-
What a nonce slot holds, over any sequence of calls to the in-memory
transport.  The slot of a node is decided by the last answered round 1 call on
that node; round 2 reads it, and neither looks at the approved transaction nor
empties the slot.
-/
import CraftSec.Client.Transport
import CraftSec.Dkg.Invariant

namespace CraftSec

open History

variable {E P : Type}

namespace LocalTransport

@[simp]
theorem held_new (nodes : List (CraftSecNode E P)) (rng : Rng) (i : ℕ) :
    (LocalTransport.new nodes rng).held i = none := by
  by_cases hi : i < nodes.length
  · simp [held, new, hi]
  · simp [held, new, hi]

@[simp]
theorem held_setNode (transport : LocalTransport E P) (i : ℕ)
    (node : CraftSecNode E P) (rng : Rng) (j : ℕ) :
    (transport.setNode i node rng).held j = transport.held j := rfl

theorem held_setNonce_self (transport : LocalTransport E P) {i : ℕ}
    (hi : i < transport.nodes.length) (nonce : Option SigningNonce) :
    (transport.setNonce i nonce).held i = nonce := by
  have hslot : i < transport.nonces.length := by
    rwa [transport.nonces_length]
  simp [held, List.getElem?_set_self hslot]

theorem held_setNonce_of_ne (transport : LocalTransport E P) {i j : ℕ}
    (hne : i ≠ j) (nonce : Option SigningNonce) :
    (transport.setNonce i nonce).held j = transport.held j := by
  simp [held, List.getElem?_set_ne hne]

end LocalTransport

/-- A slot and the last answer of its node belong together: after an approval
the slot holds the nonce behind the answered commitment, otherwise nothing. -/
def SlotMatches [EdwardsGroup P] (slot : Option SigningNonce) :
    Option (ℕ × Round1Response P) → Prop
  | none => slot = none
  | some (_, ⟨.invalid _, _⟩) => slot = none
  | some (_, ⟨.valid _, commitment⟩) =>
      ∃ nonce, slot = some nonce ∧ commitment = some nonce.commitment

variable [EdwardsGroup P]

theorem SlotMatches.eq_some_iff {slot : Option SigningNonce}
    {last : Option (ℕ × Round1Response P)} (hmatches : SlotMatches slot last)
    (nonce : SigningNonce) :
    slot = some nonce ↔ ∃ serial tx,
      last = some (serial, ⟨.valid tx, some nonce.commitment⟩) := by
  rcases last with - | ⟨serial, result, commitment⟩
  · have hslot : slot = none := hmatches
    simp [hslot]
  · cases result with
    | invalid reason =>
        have hslot : slot = none := hmatches
        simp [hslot]
    | valid tx =>
        obtain ⟨own, rfl, rfl⟩ := hmatches
        constructor
        · rintro ⟨rfl⟩
          exact ⟨serial, tx, rfl⟩
        · rintro ⟨serial', tx', heq⟩
          simp only [Option.some.injEq, Prod.mk.injEq,
            Round1Response.mk.injEq] at heq
          exact congrArg some (SigningNonce.commitment_injective heq.2.2)

/-- The invariant of a run over the in-memory transport: key shares stay put,
and every slot matches the last answer of its node. -/
structure SlotInvariant (nodes : List (CraftSecNode E P))
    (trace : Trace (LocalTransport E P) (Event P)) : Prop where
  keyShares : trace.state.nodes.map CraftSecNode.keyShare =
    nodes.map CraftSecNode.keyShare
  slots : ∀ i, SlotMatches (trace.state.held i)
    (lastGrant Event.answered i trace.events)

theorem slotInvariant_new (nodes : List (CraftSecNode E P)) (rng : Rng) :
    SlotInvariant nodes ⟨LocalTransport.new nodes rng, []⟩ where
  keyShares := rfl
  slots i := LocalTransport.held_new nodes rng i

/-- A call without an answer leaves slots and last answers alone. -/
theorem SlotInvariant.of_unanswered {nodes : List (CraftSecNode E P)}
    {trace : Trace (LocalTransport E P) (Event P)}
    (hinv : SlotInvariant nodes trace) {state : LocalTransport E P}
    {event : Event P} (hevent : event.answered = none)
    (hkeys : state.nodes.map CraftSecNode.keyShare =
      trace.state.nodes.map CraftSecNode.keyShare)
    (hheld : ∀ j, state.held j = trace.state.held j) :
    SlotInvariant nodes ⟨state, event :: trace.events⟩ := by
  refine ⟨hkeys.trans hinv.keyShares, fun j => ?_⟩
  have hne : ∀ response, event.answered ≠ some (j, response) := by
    simp [hevent]
  change SlotMatches (state.held j) (lastGrant _ j (event :: trace.events))
  rw [lastGrant_cons_of_ne hne, hheld]
  exact hinv.slots j

/-- An answer of node `i` comes with a new content of its slot. -/
theorem SlotInvariant.of_answered {nodes : List (CraftSecNode E P)}
    {trace : Trace (LocalTransport E P) (Event P)}
    (hinv : SlotInvariant nodes trace) {state : LocalTransport E P}
    {event : Event P} {i : ℕ} {response : Round1Response P}
    (hevent : event.answered = some (i, response))
    (hkeys : state.nodes.map CraftSecNode.keyShare =
      trace.state.nodes.map CraftSecNode.keyShare)
    (hself : SlotMatches (state.held i)
      (some (trace.events.length, response)))
    (hother : ∀ j, i ≠ j → state.held j = trace.state.held j) :
    SlotInvariant nodes ⟨state, event :: trace.events⟩ := by
  refine ⟨hkeys.trans hinv.keyShares, fun j => ?_⟩
  change SlotMatches (state.held j) (lastGrant _ j (event :: trace.events))
  by_cases hij : i = j
  · subst hij
    rw [lastGrant_cons_of_eq hevent]
    exact hself
  · have hne : ∀ other, event.answered ≠ some (j, other) := by
      intro other hother
      rw [hevent] at hother
      cases hother
      exact hij rfl
    rw [lastGrant_cons_of_ne hne, hother j hij]
    exact hinv.slots j

variable [ProgramExecutor E]

/-- Processing a request keeps whatever does not depend on the backend. -/
theorem LocalTransport.map_setNode {A : Type} (f : CraftSecNode E P → A)
    (hf : ∀ (node : CraftSecNode E P) (registry : E),
      f { node with registry := registry } = f node)
    (transport : LocalTransport E P) {i : ℕ} {node : CraftSecNode E P}
    (hnode : transport.nodes[i]? = some node) (request : AttestationRequest)
    (rng : Rng) :
    (transport.setNode i (node.processRequest request transport.rng).2.1
        rng).nodes.map f = transport.nodes.map f := by
  obtain ⟨registry, hregistry⟩ :=
    node.processRequest_node request transport.rng
  rw [hregistry, setNode_nodes, List.map_set]
  apply List.ext_getElem?
  intro j
  by_cases hij : i = j
  · subst hij
    rw [List.getElem?_set_self', List.getElem?_map, hnode, hf]
    rfl
  · rw [List.getElem?_set_ne hij]

/-- Round 1 keeps whatever does not depend on the backend. -/
theorem LocalTransport.map_round1 {A : Type} (f : CraftSecNode E P → A)
    (hf : ∀ (node : CraftSecNode E P) (registry : E),
      f { node with registry := registry } = f node)
    (transport : LocalTransport E P) (i : ℕ) (request : AttestationRequest) :
    (transport.round1 i request).2.nodes.map f = transport.nodes.map f := by
  rcases transport.round1_cases i request with
    ⟨-, heq⟩ | ⟨node, node', rng, hnode, rfl, hcases⟩
  · rw [heq]
  · have hkept := transport.map_setNode f hf hnode request rng
    rcases hcases with ⟨tx, -, heq⟩ | ⟨reason, -, heq⟩ | ⟨abort, -, -, heq⟩
    all_goals
      rw [heq]
      exact hkept

variable [Sha512]

/-- The step lemma: a call of either kind keeps the invariant. -/
theorem SlotInvariant.record {nodes : List (CraftSecNode E P)}
    {trace : Trace (LocalTransport E P) (Event P)}
    (hinv : SlotInvariant nodes trace) (call : Call P) :
    SlotInvariant nodes (record Call.perform trace call) := by
  cases call with
  | round2 i message commitments =>
      exact hinv.of_unanswered rfl rfl fun _ => rfl
  | round1 i request =>
      change SlotInvariant nodes ⟨(trace.state.round1 i request).2,
        .round1 i request (trace.state.round1 i request).1 :: trace.events⟩
      rcases trace.state.round1_cases i request with
        ⟨-, heq⟩ | ⟨node, node', rng, hnode, rfl, hcases⟩
      · rw [heq]
        exact hinv.of_unanswered rfl rfl fun _ => rfl
      · have hkeys := trace.state.map_setNode CraftSecNode.keyShare
          (fun _ _ => rfl) hnode request rng
        have hi : i < (trace.state.setNode i
            (node.processRequest request trace.state.rng).2.1
            rng).nodes.length := by
          rw [LocalTransport.setNode_nodes, List.length_set]
          exact (List.getElem?_eq_some_iff.mp hnode).1
        rcases hcases with ⟨tx, -, heq⟩ | ⟨reason, -, heq⟩ | ⟨abort, -, -, heq⟩
        · rw [heq]
          refine hinv.of_answered (i := i) rfl ?_ ?_ ?_
          · exact hkeys
          · exact ⟨_, LocalTransport.held_setNonce_self _ hi _, rfl⟩
          · intro j hij
            exact LocalTransport.held_setNonce_of_ne _ hij _
        · rw [heq]
          refine hinv.of_answered (i := i) rfl ?_ ?_ ?_
          · exact hkeys
          · exact LocalTransport.held_setNonce_self _ hi _
          · intro j hij
            exact LocalTransport.held_setNonce_of_ne _ hij _
        · rw [heq]
          exact hinv.of_unanswered rfl hkeys fun _ => rfl

/-- Every recorded round 2 call was made in a state that satisfied the
invariant. -/
theorem exists_state_of_round2 (nodes : List (CraftSecNode E P)) (rng : Rng)
    (calls : List (Call P)) {i : ℕ} {message : Bytes}
    {commitments : List (SigningCommitment P)}
    {outcome : Outcome Round2Response} {past : List (Event P)}
    (hsuffix : .round2 i message commitments outcome :: past <:+
      (runCalls (LocalTransport.new nodes rng) calls).events) :
    ∃ state : LocalTransport E P, SlotInvariant nodes ⟨state, past⟩ ∧
      outcome = state.round2 i message commitments := by
  obtain ⟨state, call, hinv, hevent⟩ := exists_state_of_suffix
    (SlotInvariant nodes) (slotInvariant_new nodes rng)
    (fun _ call hinv => hinv.record call) calls hsuffix
  refine ⟨state, hinv, ?_⟩
  cases call with
  | round1 => cases hevent
  | round2 => cases hevent; rfl

/-- A recorded round 2 call either signs, after an approval and with its nonce,
or fails, after no approval. -/
theorem round2_recorded_cases (nodes : List (CraftSecNode E P)) (rng : Rng)
    (calls : List (Call P)) {i : ℕ} {message : Bytes}
    {commitments : List (SigningCommitment P)}
    {outcome : Outcome Round2Response} {past : List (Event P)}
    (hsuffix : .round2 i message commitments outcome :: past <:+
      (runCalls (LocalTransport.new nodes rng) calls).events) :
    (∃ serial tx nonce node,
      lastGrant Event.answered i past =
        some (serial, ⟨.valid tx, some nonce.commitment⟩) ∧
      nodes[i]? = some node ∧
      outcome =
        .ok ⟨honestPartial node.keyShare nonce message commitments⟩) ∨
    ((∀ serial tx commitment, lastGrant Event.answered i past ≠
        some (serial, ⟨.valid tx, commitment⟩)) ∧
      ∃ abort, outcome = .error abort) := by
  obtain ⟨state, hinv, rfl⟩ := exists_state_of_round2 nodes rng calls hsuffix
  have hmatches : SlotMatches (state.held i)
      (lastGrant Event.answered i past) := hinv.slots i
  rcases state.round2_cases i message commitments with
    ⟨nonce, node', hheld, hnode', heq⟩ | ⟨abort, hheld, heq⟩
  · left
    obtain ⟨serial, tx, hlast⟩ := (hmatches.eq_some_iff nonce).mp hheld
    have hshare : (nodes.map CraftSecNode.keyShare)[i]? =
        some node'.keyShare := by
      rw [← hinv.keyShares, List.getElem?_map, hnode']
      rfl
    rw [List.getElem?_map, Option.map_eq_some_iff] at hshare
    obtain ⟨node, hnode, hsame⟩ := hshare
    refine ⟨serial, tx, nonce, node, hlast, hnode, ?_⟩
    rw [heq, hsame]
  · right
    refine ⟨?_, abort, heq⟩
    intro serial tx commitment hlast
    rw [hlast] at hmatches
    obtain ⟨nonce, hsome, -⟩ := hmatches
    rw [hheld] at hsome
    cases hsome

/-- Round 2 answers exactly when the last answered round 1 call on the node
approved some transaction.  The message need not have anything to do with it:
it is signed as given, with the nonce of that call and the node's default key
share. -/
theorem round2_signs_iff_approved (nodes : List (CraftSecNode E P)) (rng : Rng)
    (calls : List (Call P)) {i : ℕ} {message : Bytes}
    {commitments : List (SigningCommitment P)}
    {outcome : Outcome Round2Response} {past : List (Event P)}
    (hsuffix : .round2 i message commitments outcome :: past <:+
      (runCalls (LocalTransport.new nodes rng) calls).events) :
    ((∃ response, outcome = .ok response) ↔
      ∃ serial tx commitment, lastGrant Event.answered i past =
        some (serial, ⟨.valid tx, commitment⟩)) ∧
    ∀ response, outcome = .ok response → ∃ serial tx nonce node,
      lastGrant Event.answered i past =
        some (serial, ⟨.valid tx, some nonce.commitment⟩) ∧
      nodes[i]? = some node ∧
      response =
        ⟨honestPartial node.keyShare nonce message commitments⟩ := by
  rcases round2_recorded_cases nodes rng calls hsuffix with
    ⟨serial, tx, nonce, node, hlast, hnode, rfl⟩ | ⟨hnone, abort, rfl⟩
  · refine ⟨⟨fun _ => ⟨serial, tx, _, hlast⟩, fun _ => ⟨_, rfl⟩⟩, ?_⟩
    intro response hresponse
    cases hresponse
    exact ⟨serial, tx, nonce, node, hlast, hnode, rfl⟩
  · refine ⟨⟨?_, ?_⟩, ?_⟩
    · rintro ⟨response, hresponse⟩
      cases hresponse
    · rintro ⟨serial, tx, commitment, hlast⟩
      exact absurd hlast (hnone serial tx commitment)
    · intro response hresponse
      cases hresponse

/-- An approval followed by two requests for a partial signature, on messages
that are nobody's transaction. -/
def repeatedCalls (m m' : Bytes) : List (Call P) :=
  [.round1 0 sampleRequest, .round2 0 m [], .round2 0 m' []]

/-- Both requests are answered. -/
theorem repeatedCalls_events (keyShare : KeyShare P) (tx : Transaction)
    (rng : Rng) (m m' : Bytes) :
    ∃ commitment first second,
      (runCalls (LocalTransport.new [approvingNode keyShare tx] rng)
        (repeatedCalls m m')).events =
        [.round2 0 m' [] (.ok second), .round2 0 m [] (.ok first),
          .round1 0 sampleRequest (.ok ⟨.valid tx, some commitment⟩)] :=
  ⟨_, _, _, rfl⟩

omit [Sha512] in
/-- A node that approved one transaction signs the empty message. -/
theorem round2_signs_unapproved_message :
    letI := sha512Reference
    letI := floatFormatReference
    ∃ commitment first second,
      (runCalls
        (LocalTransport.new
          [approvingNode (linearShare 3 3 1) sampleTransaction] unitRng)
        (repeatedCalls [] [])).events =
        [.round2 0 [] [] (.ok second), .round2 0 [] [] (.ok first),
          .round1 0 sampleRequest
            (.ok ⟨.valid sampleTransaction, some commitment⟩)] ∧
      sampleTransaction.signingBytes ≠ [] := by
  let _ := sha512Reference
  let _ := floatFormatReference
  obtain ⟨commitment, first, second, hevents⟩ :=
    repeatedCalls_events (linearShare 3 3 1) sampleTransaction unitRng [] []
  refine ⟨commitment, first, second, hevents, ?_⟩
  simp [Transaction.signingBytes, writeObject]

omit [Sha512] in
theorem round2_signs_iff_approved_once :
    letI := sha512Reference
    ∃ response serial tx nonce,
      (runCalls
        (LocalTransport.new
          [approvingNode (linearShare 3 3 1) sampleTransaction] unitRng)
        (repeatedCalls [] [])).events.head? =
          some (.round2 0 [] [] (.ok response)) ∧
      lastGrant Event.answered 0
        (runCalls
          (LocalTransport.new
            [approvingNode (linearShare 3 3 1) sampleTransaction] unitRng)
          (repeatedCalls [] [])).events =
        some (serial, ⟨.valid tx, some nonce.commitment⟩) ∧
      response = ⟨honestPartial (linearShare 3 3 1) nonce [] []⟩ := by
  let _ := sha512Reference
  obtain ⟨commitment, first, second, hevents⟩ :=
    repeatedCalls_events (linearShare 3 3 1) sampleTransaction unitRng [] []
  have hsuffix := List.suffix_refl (runCalls
    (LocalTransport.new
      [approvingNode (linearShare 3 3 1) sampleTransaction] unitRng)
    (repeatedCalls [] [])).events
  nth_rewrite 1 [hevents] at hsuffix
  obtain ⟨serial, tx, nonce, node, hlast, hnode, hresponse⟩ :=
    (round2_signs_iff_approved _ _ _ hsuffix).2 second rfl
  cases hnode
  refine ⟨second, serial, tx, nonce, by rw [hevents]; rfl, ?_, hresponse⟩
  rw [hevents, lastGrant_cons_of_ne (by intro a h; cases h)]
  exact hlast

/-- An answered round 2 call used the nonce of the last answered round 1 call on
its node. -/
theorem signed_with_last_nonce (nodes : List (CraftSecNode E P)) (rng : Rng)
    (calls : List (Call P)) {i : ℕ} {message : Bytes}
    {commitments : List (SigningCommitment P)} {response : Round2Response}
    {past : List (Event P)}
    (hsuffix : .round2 i message commitments (.ok response) :: past <:+
      (runCalls (LocalTransport.new nodes rng) calls).events) :
    ∃ serial tx nonce node,
      lastGrant Event.answered i past =
        some (serial, ⟨.valid tx, some nonce.commitment⟩) ∧
      nodes[i]? = some node ∧
      response =
        ⟨honestPartial node.keyShare nonce message commitments⟩ := by
  rcases round2_recorded_cases nodes rng calls hsuffix with
    ⟨serial, tx, nonce, node, hlast, hnode, heq⟩ | ⟨-, abort, habort⟩
  · cases heq
    exact ⟨serial, tx, nonce, node, hlast, hnode, rfl⟩
  · cases habort

/-- Which nonce a partial signature was made with, and when no nonce is used
twice: exactly when no node that has answered round 2 is asked again before its
next answered round 1 call. -/
theorem nonce_single_use_iff (nodes : List (CraftSecNode E P)) (rng : Rng)
    (calls : List (Call P)) :
    (∀ i message commitments response past,
      .round2 i message commitments (.ok response) :: past <:+
        (runCalls (LocalTransport.new nodes rng) calls).events →
      ∃ serial tx nonce node,
        lastGrant Event.answered i past =
          some (serial, ⟨.valid tx, some nonce.commitment⟩) ∧
        nodes[i]? = some node ∧
        response =
          ⟨honestPartial node.keyShare nonce message commitments⟩) ∧
    (SingleUse Event.answered Event.signed
        (runCalls (LocalTransport.new nodes rng) calls).events ↔
      ∀ i message commitments outcome past,
        .round2 i message commitments outcome :: past <:+
          (runCalls (LocalTransport.new nodes rng) calls).events →
        usedSince Event.answered Event.signed i past = false) := by
  refine ⟨fun _ _ _ _ _ => signed_with_last_nonce nodes rng calls, ?_⟩
  rw [singleUse_iff_noRepeatedUse
    (fun event _ => Event.answered_eq_none_of_signed)]
  · constructor
    · intro hfresh i message commitments outcome past hsuffix
      by_contra hused
      rw [Bool.not_eq_false] at hused
      -- The earlier use shows that the slot is still filled, so this call
      -- answers as well.
      obtain ⟨user, before, hbefore, huser, hsame⟩ := exists_of_usedSince
        (fun _ => Event.answered_eq_none_of_signed) hused
      obtain ⟨message', commitments', response', rfl⟩ :=
        Event.eq_round2_of_signed huser
      obtain ⟨serial, tx, nonce, node, hlast, -, -⟩ :=
        signed_with_last_nonce nodes rng calls
          ((hbefore.trans (List.suffix_cons _ _)).trans hsuffix)
      rcases round2_recorded_cases nodes rng calls hsuffix with
        ⟨_, _, own, signer, _, _, rfl⟩ | ⟨hnone, -⟩
      · rw [hfresh _ past i hsuffix rfl] at hused
        cases hused
      · exact hnone _ _ _ (hsame ▸ hlast)
    · intro hfresh event past i hsuffix hsigned
      obtain ⟨message, commitments, response, rfl⟩ :=
        Event.eq_round2_of_signed hsigned
      exact hfresh i message commitments _ past hsuffix
  · intro event past i hsuffix hsigned
    obtain ⟨message, commitments, response, rfl⟩ :=
      Event.eq_round2_of_signed hsigned
    obtain ⟨serial, tx, nonce, node, hlast, -, -⟩ :=
      signed_with_last_nonce nodes rng calls hsuffix
    exact ⟨_, hlast⟩

omit [Sha512] in
/-- Two requests in a row are answered with the same nonce. -/
theorem nonce_used_twice :
    letI := sha512Reference
    ¬ SingleUse Event.answered Event.signed
      (runCalls
        (LocalTransport.new
          [approvingNode (linearShare 3 3 1) sampleTransaction] unitRng)
        (repeatedCalls [0] [1])).events := by
  let _ := sha512Reference
  obtain ⟨commitment, first, second, hevents⟩ :=
    repeatedCalls_events (linearShare 3 3 1) sampleTransaction unitRng [0] [1]
  rw [hevents]
  intro hsingle
  have hlength := hsingle _ _ _ _ 0 0 0 _ _ (List.suffix_refl _)
    (List.suffix_cons _ _) rfl rfl rfl rfl
  cases hlength

end CraftSec
