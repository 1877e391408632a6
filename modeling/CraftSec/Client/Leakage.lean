/-
What the partial signatures of a run say about the shares behind them.  A nonce
slot is not emptied by round 2, so a node may release several responses under
one nonce pair; which sets of responses give the share away is exact.  After
any attestation one more call for each signer is enough for the group's secret.
-/
import CraftSec.Client.Deployment
import CraftSec.Signing.Leakage

open scoped Polynomial

namespace CraftSec

open History (Trace lastGrant SingleUse)

section Released

variable {P : Type}

/-- Node `i` released `part` for a session.  The nonce pair was drawn in its
answer number `serial`. -/
def Released (events : List (Event P)) (i serial : ℕ) (message : Bytes)
    (commitments : List (SigningCommitment P)) (part : PartialSignature) :
    Prop :=
  ∃ past answer,
    .round2 i message commitments (.ok ⟨part⟩) :: past <:+ events ∧
      lastGrant Event.answered i past = some (serial, answer)

variable [EdwardsGroup P] [Sha512]

/-- All that node `i` released could have been made with the share, under some
nonce pair for each of its answers. -/
def CouldHold (events : List (Event P)) (i : ℕ) (keyShare : KeyShare P) :
    Prop :=
  ∃ nonces : ℕ → SigningNonce, ∀ serial message commitments part,
    Released events i serial message commitments part →
      part = honestPartial keyShare (nonces serial) message commitments

/-- The sessions signed under one nonce pair have their weights on a line over
their binding factors. -/
def OnLine (events : List (Event P)) (i : ℕ) (keyShare : KeyShare P)
    (serial : ℕ) : Prop :=
  ∃ intercept slope : Scalar, ∀ message commitments part,
    Released events i serial message commitments part →
      intercept + bindingFactor keyShare.index message commitments * slope =
        signingWeight keyShare.index keyShare.groupPublicKey message
          commitments

/-- What node `i` released, as answers to questions. -/
def releasedTranscript (events : List (Event P)) (i : ℕ)
    (keyShare : KeyShare P) :
    MaskedAnswers.Transcript ℕ Scalar (Scalar × Scalar) :=
  fun serial question answer => ∃ message commitments part,
    Released events i serial message commitments part ∧
      question = signingQuestion keyShare.index keyShare.groupPublicKey message
        commitments ∧
      answer = part.z

variable {events : List (Event P)} {i : ℕ} {keyShare : KeyShare P}

/-- Responses under the share's index are explained by a secret exactly when
their values are. -/
theorem couldHold_iff_fits
    (hindex : ∀ serial message commitments part,
      Released events i serial message commitments part →
        part.index = keyShare.index) (secret : Scalar) :
    CouldHold events i { keyShare with secret := secret } ↔
      MaskedAnswers.Fits (releasedTranscript events i keyShare) secret := by
  constructor
  · rintro ⟨nonces, hnonces⟩
    refine ⟨fun serial => ((nonces serial).d, (nonces serial).e), ?_⟩
    rintro serial question answer
      ⟨message, commitments, part, hreleased, rfl, rfl⟩
    rw [hnonces serial message commitments part hreleased, honestPartial_z]
  · rintro ⟨nonces, hnonces⟩
    refine ⟨fun serial => ⟨0, (nonces serial).1, (nonces serial).2⟩, ?_⟩
    intro serial message commitments part hreleased
    have hanswer := hnonces serial _ _
      ⟨message, commitments, part, hreleased, rfl, rfl⟩
    have hz := honestPartial_z { keyShare with secret := secret }
      ⟨0, (nonces serial).1, (nonces serial).2⟩ message commitments
    have hsame := hindex serial message commitments part hreleased
    obtain ⟨own, z⟩ := part
    simp only at hsame hanswer hz
    rw [← hz] at hanswer
    rw [hsame, ← hanswer]
    rfl

theorem onLine_iff_blinded (serial : ℕ) :
    OnLine events i keyShare serial ↔
      MaskedAnswers.Blinded (releasedTranscript events i keyShare) serial := by
  constructor
  · rintro ⟨intercept, slope, hline⟩
    refine ⟨(intercept, slope), ?_⟩
    rintro question answer ⟨message, commitments, part, hreleased, rfl, rfl⟩
    rw [signingQuestion, MaskedAnswers.pairQuestion_mask,
      MaskedAnswers.pairQuestion_weight]
    exact hline message commitments part hreleased
  · rintro ⟨⟨intercept, slope⟩, hline⟩
    refine ⟨intercept, slope, ?_⟩
    intro message commitments part hreleased
    have hpoint := hline _ _ ⟨message, commitments, part, hreleased, rfl, rfl⟩
    rwa [signingQuestion, MaskedAnswers.pairQuestion_mask,
      MaskedAnswers.pairQuestion_weight] at hpoint

omit [Sha512] [EdwardsGroup P] in
/-- With single use, one answer stands behind one response. -/
theorem Released.session_eq
    (hsingle : SingleUse Event.answered Event.signed events) {serial : ℕ}
    {message message' : Bytes}
    {commitments commitments' : List (SigningCommitment P)}
    {part part' : PartialSignature}
    (hreleased : Released events i serial message commitments part)
    (hreleased' : Released events i serial message' commitments' part') :
    message' = message ∧ commitments' = commitments := by
  obtain ⟨past, answer, hsuffix, hlast⟩ := hreleased
  obtain ⟨past', answer', hsuffix', hlast'⟩ := hreleased'
  have hlength := hsingle _ _ _ _ i i serial _ _ hsuffix hsuffix' rfl rfl hlast
    hlast'
  have hsame := (List.suffix_of_suffix_length_le hsuffix hsuffix'
    (by simp [hlength])).eq_of_length (by simp [hlength])
  cases hsame
  exact ⟨rfl, rfl⟩

/-- One point is always on a line. -/
theorem onLine_of_singleUse
    (hsingle : SingleUse Event.answered Event.signed events) (serial : ℕ) :
    OnLine events i keyShare serial := by
  by_cases hexists : ∃ message commitments part,
      Released events i serial message commitments part
  · obtain ⟨message, commitments, part, hreleased⟩ := hexists
    refine ⟨signingWeight keyShare.index keyShare.groupPublicKey message
      commitments, 0, ?_⟩
    intro message' commitments' part' hreleased'
    obtain ⟨rfl, rfl⟩ := hreleased.session_eq hsingle hreleased'
    rw [mul_zero, add_zero]
  · refine ⟨0, 0, fun message commitments part hreleased => ?_⟩
    exact absurd ⟨message, commitments, part, hreleased⟩ hexists

/-- Moving commitments into the message keeps the binding factor, so a change of
weight is a second point above the first. -/
theorem not_onLine_of_moved {serial moved : ℕ} {message : Bytes}
    {commitments : List (SigningCommitment P)}
    {part part' : PartialSignature}
    (hreleased : Released events i serial message commitments part)
    (hmoved : Released events i serial
      (movedMessage moved message commitments) (commitments.drop moved) part')
    (hdiffer : WeightsDiffer keyShare.groupPublicKey moved keyShare.index
      message commitments) : ¬ OnLine events i keyShare serial := by
  rintro ⟨intercept, slope, hline⟩
  have hfirst := hline message commitments part hreleased
  have hsecond := hline _ _ part' hmoved
  rw [bindingFactor, bindingInput_moved] at hsecond
  exact hdiffer (hfirst.symm.trans hsecond)

end Released

section Runs

variable {E P : Type} [EdwardsGroup P] [ProgramExecutor E] [Sha512]

/-- What a run releases is explained by the node's own share. -/
theorem couldHold_own (nodes : List (CraftSecNode E P)) (rng : Rng)
    (calls : List (Call P)) {i : ℕ} {node : CraftSecNode E P}
    (hnode : nodes[i]? = some node) :
    CouldHold (runCalls (LocalTransport.new nodes rng) calls).events i
      node.keyShare := by
  have hown : ∀ serial, ∃ nonce, ∀ message commitments part,
      Released (runCalls (LocalTransport.new nodes rng) calls).events i serial
        message commitments part →
      part = honestPartial node.keyShare nonce message commitments := by
    intro serial
    by_cases hexists : ∃ message commitments part, Released
        (runCalls (LocalTransport.new nodes rng) calls).events i serial message
          commitments part
    · obtain ⟨message, commitments, part, past, answer, hsuffix, hlast⟩ :=
        hexists
      obtain ⟨serial', tx, nonce, own, hlast', -, -⟩ :=
        signed_with_last_nonce nodes rng calls hsuffix
      rw [hlast] at hlast'
      cases hlast'
      refine ⟨nonce, ?_⟩
      rintro message' commitments' part' ⟨past', answer', hsuffix', hlast'⟩
      obtain ⟨serial'', tx', nonce', own', hlast'', hown', hresponse⟩ :=
        signed_with_last_nonce nodes rng calls hsuffix'
      rw [hlast'] at hlast''
      cases hlast''
      rw [hnode] at hown'
      cases hown'
      -- the serial number fixes the answer, and the answer the nonce pair
      have hanswer := History.grant_eq_of_serial
        ((List.suffix_cons _ _).trans hsuffix)
        ((List.suffix_cons _ _).trans hsuffix') hlast hlast'
      have hnonce : nonce = nonce' :=
        SigningNonce.commitment_injective
          (Option.some.inj (congrArg Round1Response.commitment hanswer))
      cases hresponse
      rw [hnonce]
    · refine ⟨⟨0, 0, 0⟩, fun message commitments part hreleased => ?_⟩
      exact absurd ⟨message, commitments, part, hreleased⟩ hexists
  choose nonces hnonces using hown
  exact ⟨nonces, hnonces⟩

/-- The partial signatures that a node releases in a run fit its own secret and
no other, unless under every nonce pair the sessions signed with it have their
weights on a line over their binding factors; then they fit every secret.  In
particular they do when no nonce is used twice. -/
theorem partials_determine_share_iff (nodes : List (CraftSecNode E P))
    (rng : Rng) (calls : List (Call P)) {i : ℕ} {node : CraftSecNode E P}
    (hnode : nodes[i]? = some node) :
    (∀ secret,
      CouldHold (runCalls (LocalTransport.new nodes rng) calls).events i
          { node.keyShare with secret := secret } ↔
        secret = node.keyShare.secret ∨
          ∀ serial, OnLine
            (runCalls (LocalTransport.new nodes rng) calls).events i
            node.keyShare serial) ∧
    (SingleUse Event.answered Event.signed
        (runCalls (LocalTransport.new nodes rng) calls).events →
      ∀ secret,
        CouldHold (runCalls (LocalTransport.new nodes rng) calls).events i
          { node.keyShare with secret := secret }) := by
  obtain ⟨nonces, hnonces⟩ := couldHold_own nodes rng calls hnode
  have hfits := @couldHold_iff_fits P _ _ _ i node.keyShare
    fun serial message commitments part hreleased =>
      congrArg PartialSignature.index
        (hnonces serial message commitments part hreleased)
  have hown := (hfits node.keyShare.secret).mp ⟨nonces, hnonces⟩
  have hexact : ∀ secret,
      CouldHold (runCalls (LocalTransport.new nodes rng) calls).events i
          { node.keyShare with secret := secret } ↔
        secret = node.keyShare.secret ∨
          ∀ serial, OnLine
            (runCalls (LocalTransport.new nodes rng) calls).events i
            node.keyShare serial := by
    intro secret
    rw [hfits, MaskedAnswers.fits_iff hown]
    simp only [onLine_iff_blinded]
  refine ⟨hexact, fun hsingle secret => ?_⟩
  exact (hexact secret).mpr (Or.inr (onLine_of_singleUse hsingle))

omit [Sha512] in
/-- Two sessions that differ in where the first commitment stands. -/
def movedCalls (c : SigningCommitment P) : List (Call P) :=
  [.round1 0 sampleRequest, .round2 0 [] [c],
    .round2 0 (movedMessage 1 [] [c]) []]

theorem movedCalls_events (keyShare : KeyShare P) (tx : Transaction)
    (rng : Rng) (c : SigningCommitment P) :
    ∃ commitment first second,
      (runCalls (LocalTransport.new [approvingNode keyShare tx] rng)
        (movedCalls c)).events =
        [.round2 0 (movedMessage 1 [] [c]) [] (.ok ⟨second⟩),
          .round2 0 [] [c] (.ok ⟨first⟩),
          .round1 0 sampleRequest (.ok ⟨.valid tx, some commitment⟩)] :=
  ⟨_, _, _, rfl⟩

omit [Sha512] in
/-- Two responses under one approval leave one secret. -/
theorem partials_determine_share_moved :
    letI := sha512Reference
    let events := (runCalls
      (LocalTransport.new
        [approvingNode (linearShare 3 3 1) sampleTransaction] unitRng)
      (movedCalls ⟨2, ((4, 0) : ReferencePoint), (5, 0)⟩)).events
    CouldHold events 0 (linearShare 3 3 1) ∧
      ¬ CouldHold events 0 { linearShare 3 3 1 with secret := 7 } := by
  let _ := sha512Reference
  obtain ⟨hexact, -⟩ := partials_determine_share_iff
    [approvingNode (linearShare 3 3 1) sampleTransaction] unitRng
    (movedCalls ⟨2, ((4, 0) : ReferencePoint), (5, 0)⟩) (i := 0) rfl
  obtain ⟨commitment, first, second, hevents⟩ := movedCalls_events
    (linearShare 3 3 1) sampleTransaction unitRng
    ⟨2, ((4, 0) : ReferencePoint), (5, 0)⟩
  have hdiffer : WeightsDiffer (linearShare 3 3 1).groupPublicKey 1
      (linearShare 3 3 1).index []
      [⟨2, ((4, 0) : ReferencePoint), (5, 0)⟩] := by
    decide +kernel
  refine ⟨(hexact 6).mpr (Or.inl (by decide +kernel)), ?_⟩
  intro hother
  rcases (hexact 7).mp hother with hsame | hline
  · exact absurd hsame (by decide +kernel)
  · have hfirst : Released (runCalls (LocalTransport.new
        [approvingNode (linearShare 3 3 1) sampleTransaction] unitRng)
        (movedCalls ⟨2, ((4, 0) : ReferencePoint), (5, 0)⟩)).events 0 0 []
        [⟨2, (4, 0), (5, 0)⟩] first := by
      rw [hevents]
      exact ⟨_, _, List.suffix_cons _ _, rfl⟩
    have hsecond : Released (runCalls (LocalTransport.new
        [approvingNode (linearShare 3 3 1) sampleTransaction] unitRng)
        (movedCalls ⟨2, ((4, 0) : ReferencePoint), (5, 0)⟩)).events 0 0
        (movedMessage 1 [] [⟨2, ((4, 0) : ReferencePoint), (5, 0)⟩]) []
        second := by
      rw [hevents]
      exact ⟨_, _, List.suffix_refl _, rfl⟩
    exact not_onLine_of_moved hfirst hsecond hdiffer (hline 0)

end Runs

section Theft

variable {E P : Type} [EdwardsGroup P] [Sha512]

/-- Have the signer of a logged response sign again, with commitments moved into
the message, and weigh the share that this gives away. -/
def LocalTransport.stealShare (transport : LocalTransport E P)
    (groupPublicKey : P) (moved : ℕ) : Event P → Outcome Scalar
  | .round2 i message commitments (.ok response) => do
      let again ← transport.round2 i (movedMessage moved message commitments)
        (commitments.drop moved)
      return lagrangeCoefficient response.part.index
          (commitments.map SigningCommitment.index) *
        extractShare groupPublicKey moved message commitments response.part
          again.part
  | _ => .ok 0

/-- The secret that a log of a signing session and one more call for each of
its signers add up to. -/
def LocalTransport.steal (transport : LocalTransport E P) (groupPublicKey : P)
    (moved : ℕ) (events : List (Event P)) : Outcome Scalar := do
  let terms ← events.mapM (transport.stealShare groupPublicKey moved)
  return terms.sum

/-- A logged response whose session and the moved one differ in weight. -/
def Event.Exposed (groupPublicKey : P) (moved : ℕ) : Event P → Prop
  | .round2 _ message commitments (.ok response) =>
      WeightsDiffer groupPublicKey moved response.part.index message commitments
  | _ => True

instance (groupPublicKey : P) (moved : ℕ) (event : Event P) :
    Decidable (event.Exposed groupPublicKey moved) :=
  match event with
  | .round2 _ message commitments (.ok response) =>
      inferInstanceAs (Decidable (WeightsDiffer groupPublicKey moved
        response.part.index message commitments))
  | .round2 _ _ _ (.error _) => isTrue trivial
  | .round1 _ _ _ => isTrue trivial

/-- The summand of the group's secret that a response stands for. -/
def Event.secretTerm (nodes : List (CraftSecNode E P)) : Event P → Scalar
  | .round2 i _ commitments (.ok _) =>
      lagrangeCoefficient (keyShareAt nodes i).index
          (commitments.map SigningCommitment.index) *
        (keyShareAt nodes i).secret
  | _ => 0

/-- Node `i` released `part` for a session and still holds the nonce pair it was
made with. -/
def StillHolds (transport : LocalTransport E P) (message : Bytes)
    (commitments : List (SigningCommitment P)) (i : ℕ)
    (part : PartialSignature) : Prop :=
  ∃ nonce, transport.held i = some nonce ∧
    part = honestPartial (keyShareAt transport.nodes i) nonce message
      commitments

variable {transport after : LocalTransport E P}

omit [Sha512] in
theorem keyShareAt_of_getElem? {nodes : List (CraftSecNode E P)} {i : ℕ}
    {node : CraftSecNode E P} (hnode : nodes[i]? = some node) :
    keyShareAt nodes i = node.keyShare := by
  rw [keyShareAt, hnode]

/-- A completed signing loop changes nothing: its signers hold their nonce pairs
as before. -/
theorem LocalTransport.stillHolds_of_requestPartials [ProgramExecutor E]
    {message : Bytes} {commitments : List (SigningCommitment P)}
    {nodes : List ℕ} {partials : List PartialSignature}
    (hpartials : requestPartials message commitments nodes transport =
      (.ok partials, after)) :
    after = transport ∧
      List.Forall₂ (StillHolds transport message commitments) nodes
        partials := by
  induction nodes generalizing partials with
  | nil =>
      rw [requestPartials] at hpartials
      cases hpartials
      exact ⟨rfl, .nil⟩
  | cons i rest ih =>
      rw [requestPartials] at hpartials
      have hround2 : NodeTransport.round2 transport i message commitments =
        (transport.round2 i message commitments, transport) := rfl
      rw [hround2] at hpartials
      rcases transport.round2_cases i message commitments with
        ⟨nonce, node, hheld, hnode, heq⟩ | ⟨abort, -, heq⟩
      · rw [heq] at hpartials
        dsimp only at hpartials
        split at hpartials
        next => cases hpartials
        next others last hrest =>
          cases hpartials
          obtain ⟨hsame, hothers⟩ := ih hrest
          refine ⟨hsame, .cons ⟨nonce, hheld, ?_⟩ hothers⟩
          rw [keyShareAt_of_getElem? hnode]
      · rw [heq] at hpartials
        cases hpartials

/-- Asking a signer of an exposed session again gives its term of the secret. -/
theorem StillHolds.stealShare_eq {groupPublicKey : P} {moved : ℕ}
    {message : Bytes} {commitments : List (SigningCommitment P)} {i : ℕ}
    {part : PartialSignature}
    (hholds : StillHolds transport message commitments i part)
    (hkey : (keyShareAt transport.nodes i).groupPublicKey = groupPublicKey)
    (hexposed : WeightsDiffer groupPublicKey moved part.index message
      commitments) :
    transport.stealShare groupPublicKey moved
        (.round2 i message commitments (.ok ⟨part⟩)) =
      .ok (Event.secretTerm transport.nodes
        (.round2 i message commitments (.ok ⟨part⟩))) := by
  obtain ⟨nonce, hheld, rfl⟩ := hholds
  subst hkey
  have hshare := extractShare_eq_secret (keyShareAt transport.nodes i) nonce
    moved message commitments hexposed
  rw [LocalTransport.stealShare, transport.round2_of_held hheld]
  change Except.ok (_ * extractShare _ _ _ _ _ _) = _
  rw [hshare]
  rfl

end Theft

section Attested

variable {E P : Type} [EdwardsGroup P] [Sha512] [DecidableEq P]

/-- What a successful attestation of a deployment in order logs and leaves
behind: responses of `threshold` different participants to one session, under
nonce pairs that their nodes still hold. -/
structure SessionLog (nodes : List (CraftSecNode E P)) (threshold : ℕ)
    (after : LocalTransport E P) (events : List (Event P)) (picked : List ℕ)
    (message : Bytes) (commitments : List (SigningCommitment P))
    (partials : List PartialSignature) : Prop where
  nodes_eq : after.nodes = nodes
  indices_eq : commitments.map SigningCommitment.index =
    picked.map fun i => (keyShareAt nodes i).index
  nodup : (picked.map fun i => (keyShareAt nodes i).index).Nodup
  length_eq : picked.length = threshold
  present : ∀ i ∈ picked, i < nodes.length
  holds : List.Forall₂ (StillHolds after message commitments) picked partials
  log : ∃ past, (∀ event ∈ past, event.signed = none) ∧
    events = (answers message commitments picked partials).reverse ++ past

variable [ProgramExecutor E] [FloatFormat]
  {client : CraftSecClient (LocalTransport E P) P}

theorem CraftSecClient.InOrder.sessionLog (hinOrder : client.InOrder)
    {request : AttestationRequest}
    (hquiet : QuietOn client.transport.nodes request)
    {attested : AttestedTransaction P}
    {after : LocalTransport E P} {events : List (Event P)}
    (hattest : client.recorded.attest request =
      (.ok attested, ⟨after, events⟩)) :
    ∃ picked message commitments partials,
      SessionLog client.transport.nodes client.threshold.toNat after events
        picked message commitments partials := by
  have hcount := hinOrder.nodeCount
  have hattest' := attest_of_recorded hattest
  have hnodes : after.nodes = client.transport.nodes := by
    have hkept := attest_keeps
      (I := fun transport : LocalTransport E P =>
        transport.nodes = client.transport.nodes)
      (fun transport i hsame => hquiet.round1_nodes hsame i)
      (fun _ _ _ _ hsame => hsame) client rfl
    rw [hattest'] at hkept
    exact hkept
  have henough : client.threshold.toNat ≤
      (approving client.transport.nodes request).length := by
    by_contra hfew
    obtain ⟨last, hshort⟩ := hquiet.attest_short hcount
      (Nat.lt_of_not_le hfew)
    rw [hattest'] at hshort
    cases hshort
  obtain ⟨picked, hpicked⟩ : ∃ picked, (approving client.transport.nodes
      request).take client.threshold.toNat = picked := ⟨_, rfl⟩
  have hpresent : ∀ i ∈ picked, i < client.transport.nodes.length := by
    intro i hi
    rw [← hpicked] at hi
    exact (approvedAt_of_mem_approving (List.mem_of_mem_take hi)).1
  obtain ⟨nonce, message, middle, hindex, hunsigned, hpartials, hlog⟩ :=
    hquiet.recorded_attest hcount hinOrder.positive henough hpicked
  rw [hattest] at hpartials hlog
  obtain ⟨unused, hunrecorded⟩ := requestPartials_recorded message
    (picked.map fun j => (nonce j).commitment) picked middle
  rw [hpartials, Prod.mk.injEq] at hunrecorded
  obtain ⟨hok, hstate⟩ := hunrecorded
  obtain ⟨hsame, hholds⟩ := LocalTransport.stillHolds_of_requestPartials
    (Prod.ext hok.symm rfl)
  have hafter : after = middle.state :=
    (congrArg Trace.state hstate).trans hsame
  rw [← hafter] at hholds
  refine ⟨picked, _, _, _, hnodes, ?_, ?_, ?_, hpresent, hholds,
    middle.events, hunsigned, hlog⟩
  · rw [List.map_map]
    apply List.map_congr_left
    intro i hi
    exact (hindex i hi).trans
      (hinOrder.programShareAt_index request.programCid i)
  · apply List.Nodup.map_on
    · intro i hi j hj hsame
      have hi' := (hinOrder.keyShareAt_index (hpresent i hi)).1
      have hj' := (hinOrder.keyShareAt_index (hpresent j hj)).1
      rw [hsame] at hi'
      omega
    · rw [← hpicked]
      exact (List.nodup_range.filter _).sublist (List.take_sublist _ _)
  · rw [← hpicked, List.length_take, Nat.min_eq_left henough]

omit [ProgramExecutor E] [FloatFormat] [DecidableEq P] [Sha512] in
theorem map_secretTerm_answers (nodes : List (CraftSecNode E P))
    (message : Bytes) (commitments : List (SigningCommitment P))
    {picked : List ℕ} {partials : List PartialSignature}
    (hlength : picked.length = partials.length) :
    (answers message commitments picked partials).map
        (Event.secretTerm nodes) =
      picked.map fun i =>
        lagrangeCoefficient (keyShareAt nodes i).index
            (commitments.map SigningCommitment.index) *
          (keyShareAt nodes i).secret := by
  induction picked generalizing partials with
  | nil => rfl
  | cons i rest ih =>
      cases partials with
      | nil => cases hlength
      | cons part others =>
          exact congrArg (_ :: ·) (ih (Nat.succ.inj hlength))

omit [ProgramExecutor E] [FloatFormat] [DecidableEq P] in
/-- The terms of the secret that a session log holds add up to it. -/
theorem SessionLog.sum_secretTerm {nodes : List (CraftSecNode E P)}
    {threshold : ℕ} {after : LocalTransport E P} {events : List (Event P)}
    {picked : List ℕ} {message : Bytes}
    {commitments : List (SigningCommitment P)}
    {partials : List PartialSignature}
    (hlog : SessionLog nodes threshold after events picked message commitments
      partials) {F : Scalar[X]} (hdegree : F.degree < threshold)
    (hsharing : IsSharing F (nodes.map CraftSecNode.keyShare)) :
    (events.map (Event.secretTerm nodes)).sum = F.eval 0 := by
  obtain ⟨past, hpast, rfl⟩ := hlog.log
  have hquiet : (past.map (Event.secretTerm nodes)).sum = 0 := by
    apply List.sum_eq_zero
    intro term hterm
    obtain ⟨event, hevent, rfl⟩ := List.mem_map.mp hterm
    have hunsigned := hpast event hevent
    cases event with
    | round1 i request outcome => rfl
    | round2 i message commitments outcome =>
        cases outcome with
        | error abort => rfl
        | ok response => cases hunsigned
  have hsecret : ∀ i ∈ picked, (keyShareAt nodes i).secret =
      F.eval (keyShareAt nodes i).index.toScalar := by
    intro i hi
    apply hsharing.secret_eq_eval
    rw [keyShareAt, List.getElem?_eq_getElem (hlog.present i hi)]
    exact List.mem_map_of_mem (List.getElem_mem _)
  have hinterpolate := Interpolation.sum_zeroWeight_mul_eval
    ParticipantIndex.toScalar hlog.nodup
    ParticipantIndex.toScalar_injective.injOn
    (by rw [List.length_map, hlog.length_eq]; exact hdegree)
  rw [List.map_append, List.sum_append, hquiet, add_zero, List.map_reverse,
    List.sum_reverse,
    map_secretTerm_answers nodes message commitments hlog.holds.length_eq,
    ← hinterpolate, List.map_map, hlog.indices_eq]
  congr 1
  apply List.map_congr_left
  intro i hi
  rw [Function.comp_apply, lagrangeCoefficient_eq_zeroWeight, hsecret i hi]

omit [ProgramExecutor E] [FloatFormat] [DecidableEq P] in
/-- Asking the signers of a log again yields every term. -/
theorem SessionLog.stealShare_eq {nodes : List (CraftSecNode E P)}
    {threshold : ℕ} {after : LocalTransport E P} {events : List (Event P)}
    {picked : List ℕ} {message : Bytes}
    {commitments : List (SigningCommitment P)}
    {partials : List PartialSignature}
    (hlog : SessionLog nodes threshold after events picked message commitments
      partials) {groupPublicKey : P}
    (hkey : ∀ i ∈ picked,
      (keyShareAt nodes i).groupPublicKey = groupPublicKey)
    {moved : ℕ} {event : Event P} (hevent : event ∈ events)
    (hexposed : event.Exposed groupPublicKey moved) :
    after.stealShare groupPublicKey moved event =
      .ok (event.secretTerm nodes) := by
  obtain ⟨past, hpast, rfl⟩ := hlog.log
  rcases List.mem_append.mp hevent with hanswer | hquiet
  · rw [List.mem_reverse, answers, ← List.map_uncurry_zip_eq_zipWith,
      List.mem_map] at hanswer
    obtain ⟨⟨i, part⟩, hpair, rfl⟩ := hanswer
    have hholds := List.forall₂_zip hlog.holds hpair
    have hnodes := hlog.nodes_eq
    subst hnodes
    exact hholds.stealShare_eq (hkey i (List.of_mem_zip hpair).1) hexposed
  · have hunsigned := hpast event hquiet
    cases event with
    | round1 i request outcome => rfl
    | round2 i message commitments outcome =>
        cases outcome with
        | error abort => rfl
        | ok response => cases hunsigned

/-- After any attestation of a deployment in order, one more call to each of
its signers yields the secret behind the group key, and with it a signature on
every message: as long as moving the same number of commitments into the
message changes the weight of every signer. -/
theorem forge_after_attest (hinOrder : client.InOrder)
    {request : AttestationRequest}
    (hquiet : QuietOn client.transport.nodes request)
    {attested : AttestedTransaction P}
    {after : LocalTransport E P} {events : List (Event P)}
    (hattest : client.recorded.attest request =
      (.ok attested, ⟨after, events⟩)) {moved : ℕ}
    (hexposed : ∀ event ∈ events,
      event.Exposed client.groupPublicKey moved) :
    ∃ secret, after.steal client.groupPublicKey moved events = .ok secret ∧
      basepointMul secret = client.groupPublicKey ∧
      ∀ k message,
        verify (forge client.groupPublicKey secret k message)
          client.groupPublicKey message = .ok ⟨⟩ := by
  obtain ⟨F, hdegree, hsharing, hkey⟩ := hinOrder.sharing
  obtain ⟨picked, message, commitments, partials, hlog⟩ :=
    hinOrder.sessionLog hquiet hattest
  have hshareKey : ∀ i ∈ picked,
      (keyShareAt client.transport.nodes i).groupPublicKey =
        client.groupPublicKey := by
    intro i hi
    rw [hkey]
    exact hsharing.groupPublicKey_eq _
      (hinOrder.keyShareAt_index (hlog.present i hi)).2
  have hterms := mapM_eq_ok events
    (after.stealShare client.groupPublicKey moved)
    (Event.secretTerm client.transport.nodes)
    fun event hevent =>
      hlog.stealShare_eq hshareKey hevent (hexposed event hevent)
  have hsecret : basepointMul (F.eval 0) = client.groupPublicKey := hkey.symm
  refine ⟨F.eval 0, ?_, hsecret, verify_forge hsecret⟩
  rw [LocalTransport.steal, hterms,
    ← hlog.sum_secretTerm hdegree hsharing]
  rfl

end Attested

section Samples

/-- The sample deployment attests, and its session is exposed from the first
commitment on. -/
theorem exposed_deployedClient :
    letI := sha512Reference
    letI := floatFormatReference
    (deployedClient.recorded.attest sampleRequest).1.isOk = true ∧
      ∀ event ∈ (deployedClient.recorded.attest sampleRequest).2.events,
        event.Exposed deployedClient.groupPublicKey 1 := by
  decide +kernel

/-- The key of the sample deployment is stolen. -/
theorem forge_after_attest_deployed :
    letI := sha512Reference
    letI := floatFormatReference
    ∃ attested after events secret,
      deployedClient.recorded.attest sampleRequest =
        (.ok attested, ⟨after, events⟩) ∧
      after.steal deployedClient.groupPublicKey 1 events = .ok secret ∧
      verify (forge deployedClient.groupPublicKey secret 1 (utf8 "anything"))
        deployedClient.groupPublicKey (utf8 "anything") = .ok ⟨⟩ := by
  let _ := sha512Reference
  let _ := floatFormatReference
  obtain ⟨hsucceeds, hexposed⟩ := exposed_deployedClient
  generalize hattest : deployedClient.recorded.attest sampleRequest = result
    at hsucceeds hexposed ⊢
  obtain ⟨outcome, trace⟩ := result
  cases outcome with
  | error abort => cases hsucceeds
  | ok attested =>
      obtain ⟨secret, hsteal, -, hforge⟩ :=
        forge_after_attest inOrder_deployedClient (quietOn_of_pure _ _) hattest
          hexposed
      exact ⟨attested, trace.state, trace.events, secret, rfl, hsteal,
        hforge 1 (utf8 "anything")⟩

end Samples

end CraftSec
