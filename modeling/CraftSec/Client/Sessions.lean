/-
Attestation sessions interleaved over one in-memory transport.  A node has one
nonce slot for all of them, so a session is right as long as nobody else opens
a round on a node between its own two rounds there.
-/
import CraftSec.Client.Local
import CraftSec.Dkg.Coins

open scoped Polynomial

namespace CraftSec

universe u

/-- A call that a session has yet to make on a node. -/
inductive SessionCall where
  | round1 (node : ℕ)
  | round2 (node : ℕ)
deriving DecidableEq

/-- What a session asks for and signs, and the nodes it calls in either round,
in their order. -/
structure SessionPlan where
  request : AttestationRequest
  message : Bytes
  nodes : List ℕ
  signing : List ℕ

def SessionPlan.calls (plan : SessionPlan) : List SessionCall :=
  plan.nodes.map .round1 ++ plan.signing.map .round2

/-- Where a session stands. -/
structure SessionState (P : Type) where
  todo : List SessionCall
  answers : List (ℕ × Outcome (Round1Response P))
  partials : List (Outcome Round2Response)

/-- The commitment of an answered round 1 call. -/
def answeredCommitment {P : Type} :
    Outcome (Round1Response P) → Option (SigningCommitment P)
  | .ok resp => resp.commitment
  | .error _ => none

/-- The partial signature of an answered round 2 call. -/
def answeredPartial : Outcome Round2Response → Option PartialSignature
  | .ok resp => some resp.part
  | .error _ => none

def SessionState.commitments {P : Type} (session : SessionState P) :
    List (SigningCommitment P) :=
  session.answers.filterMap fun answer => answeredCommitment answer.2

/-- A round 1 call was answered with `Valid`. -/
def isValidAnswer {P : Type} : Outcome (Round1Response P) → Bool
  | .ok ⟨.valid _, _⟩ => true
  | .ok ⟨.invalid _, _⟩ => false
  | .error _ => false

/-- Every round 1 call so far was answered with `Valid`. -/
def SessionState.AllValid {P : Type} (session : SessionState P) : Prop :=
  ∀ answer ∈ session.answers, isValidAnswer answer.2 = true

instance {P : Type} (session : SessionState P) : Decidable session.AllValid :=
  inferInstanceAs
    (Decidable (∀ answer ∈ session.answers, isValidAnswer answer.2 = true))

/-- The session has opened a round on the node and not signed there yet. -/
def SessionState.Pending {P : Type} (session : SessionState P) (i : ℕ) :
    Prop :=
  i ∈ session.answers.map Prod.fst ∧ .round2 i ∈ session.todo

/-- The sessions and the transport they share. -/
structure Sessions (ι : Type u) (E P : Type) where
  transport : LocalTransport E P
  session : ι → SessionState P

namespace Sessions

variable {ι : Type u} {E P : Type}

def start (plans : ι → SessionPlan) (transport : LocalTransport E P) :
    Sessions ι E P where
  transport := transport
  session s := ⟨(plans s).calls, [], []⟩

variable [DecidableEq ι] [EdwardsGroup P] [ProgramExecutor E] [Sha512]

/-- Session `s` makes its next call.  In round 2 it passes its own message and
the commitments that its round 1 calls returned. -/
def step (plans : ι → SessionPlan) (system : Sessions ι E P) (s : ι) :
    Sessions ι E P :=
  let session := system.session s
  match session.todo with
  | [] => system
  | .round1 i :: rest =>
      let (outcome, transport) :=
        system.transport.round1 i (plans s).request
      ⟨transport, Function.update system.session s
        ⟨rest, session.answers ++ [(i, outcome)], session.partials⟩⟩
  | .round2 i :: rest =>
      let outcome := system.transport.round2 i (plans s).message
        session.commitments
      ⟨system.transport, Function.update system.session s
        ⟨rest, session.answers, session.partials ++ [outcome]⟩⟩

/-- An interleaving is the order in which the sessions get to move. -/
def run (plans : ι → SessionPlan) (system : Sessions ι E P)
    (schedule : List ι) : Sessions ι E P :=
  schedule.foldl (step plans) system

/-- No other session opens a round on a node where `s` is between its own two
rounds. -/
def Undisturbed (plans : ι → SessionPlan) (s : ι) :
    Sessions ι E P → List ι → Prop
  | _, [] => True
  | system, other :: rest =>
      (other ≠ s → ∀ i later,
        (system.session other).todo = .round1 i :: later →
          ¬ (system.session s).Pending i) ∧
        Undisturbed plans s (step plans system other) rest

end Sessions

/-- The signature that a session aggregates. -/
def SessionState.signature {P : Type} [EdwardsGroup P] [Sha512]
    (session : SessionState P) (message : Bytes) : ThresholdSignature P :=
  aggregate message session.commitments
    (session.partials.filterMap answeredPartial)

/-- What is left of a plan, and what was done of it with which nonces.  The
nonces of the nodes that have not signed yet are still in their slots. -/
structure SessionProgress {E P : Type} [EdwardsGroup P] [Sha512]
    (plan : SessionPlan) (keyShare : ℕ → KeyShare P)
    (transport : LocalTransport E P) (session : SessionState P)
    (nonce : ℕ → SigningNonce) (asked waiting signed unsigned : List ℕ) :
    Prop where
  nodes_eq : plan.nodes = asked ++ waiting
  signing_eq : plan.signing = signed ++ unsigned
  rounds : signed = [] ∨ waiting = []
  todo_eq : session.todo = waiting.map .round1 ++ unsigned.map .round2
  asked_eq : session.answers.map Prod.fst = asked
  commitments_eq : session.commitments =
    asked.map fun i => (nonce i).commitment
  index_eq : ∀ i ∈ asked, (nonce i).index = (keyShare i).index
  partials_eq : session.partials = signed.map fun i =>
    .ok ⟨honestPartial (keyShare i) (nonce i) plan.message
      (plan.nodes.map fun j => (nonce j).commitment)⟩
  held_eq : ∀ i ∈ asked, i ∈ unsigned → transport.held i = some (nonce i)

namespace SessionProgress

variable {E P : Type} [EdwardsGroup P] [Sha512] {plan : SessionPlan}
  {keyShare : ℕ → KeyShare P} {transport : LocalTransport E P}
  {session : SessionState P} {nonce : ℕ → SigningNonce}
  {asked waiting signed unsigned : List ℕ}

/-- What others do to the transport does not matter as long as the slots of
the pending nodes stay. -/
theorem of_held (progress : SessionProgress plan keyShare transport session
      nonce asked waiting signed unsigned) {after : LocalTransport E P}
    (hheld : ∀ i, session.Pending i → after.held i = transport.held i) :
    SessionProgress plan keyShare after session nonce asked waiting signed
      unsigned := by
  refine { progress with held_eq := ?_ }
  intro i hasked hunsigned
  rw [hheld i, progress.held_eq i hasked hunsigned]
  constructor
  · rwa [progress.asked_eq]
  · rw [progress.todo_eq]
    exact List.mem_append_right _ (List.mem_map_of_mem hunsigned)

/-- A valid answer of the next node: its nonce is in the slot. -/
theorem round1 {i : ℕ} (progress : SessionProgress plan keyShare transport
      session nonce asked (i :: waiting) signed unsigned)
    (hnodup : plan.nodes.Nodup) {own : SigningNonce} {tx : Transaction}
    {after : LocalTransport E P} (hindex : own.index = (keyShare i).index)
    (hself : after.held i = some own)
    (hother : ∀ j, i ≠ j → after.held j = transport.held j) :
    SessionProgress plan keyShare after
      ⟨waiting.map .round1 ++ unsigned.map .round2,
        session.answers ++ [(i, .ok ⟨.valid tx, some own.commitment⟩)],
        session.partials⟩
      (Function.update nonce i own) (asked ++ [i]) waiting signed unsigned := by
  have hfresh : ∀ j ∈ asked, j ≠ i := by
    rintro j hj rfl
    rw [progress.nodes_eq, List.nodup_append] at hnodup
    exact hnodup.2.2 j hj j List.mem_cons_self rfl
  have hsigned : signed = [] := by
    rcases progress.rounds with hsigned | hwaiting
    · exact hsigned
    · cases hwaiting
  constructor
  · rw [progress.nodes_eq, List.append_assoc]
    rfl
  · exact progress.signing_eq
  · exact Or.inl hsigned
  · rfl
  · rw [List.map_append, progress.asked_eq]
    rfl
  · rw [SessionState.commitments, List.filterMap_append]
    change session.commitments ++ [own.commitment] = _
    rw [progress.commitments_eq, List.map_append, List.map_singleton,
      Function.update_self]
    congr 1
    apply List.map_congr_left
    intro j hj
    rw [Function.update_of_ne (hfresh j hj)]
  · intro j hj
    rcases List.mem_append.mp hj with hj | hj
    · rw [Function.update_of_ne (hfresh j hj)]
      exact progress.index_eq j hj
    · rw [List.mem_singleton.mp hj, Function.update_self]
      exact hindex
  · have hnone := progress.partials_eq
    rw [hsigned] at hnone ⊢
    exact hnone
  · intro j hj hunsigned
    rcases List.mem_append.mp hj with hj | hj
    · rw [Function.update_of_ne (hfresh j hj),
        hother j (Ne.symm (hfresh j hj))]
      exact progress.held_eq j hj hunsigned
    · rw [List.mem_singleton.mp hj, Function.update_self]
      exact hself

/-- The next signature is made with the nonce in the slot. -/
theorem round2 {i : ℕ} (progress : SessionProgress plan keyShare transport
      session nonce asked [] signed (i :: unsigned)) {outcome : Outcome Round2Response}
    (houtcome : outcome = .ok ⟨honestPartial (keyShare i) (nonce i)
      plan.message session.commitments⟩) :
    SessionProgress plan keyShare transport
      ⟨unsigned.map .round2, session.answers, session.partials ++ [outcome]⟩
      nonce asked [] (signed ++ [i]) unsigned := by
  refine { progress with
    signing_eq := ?_, rounds := Or.inr rfl, todo_eq := rfl,
    partials_eq := ?_, held_eq := ?_ }
  · rw [progress.signing_eq, List.append_assoc]
    rfl
  · rw [houtcome, progress.commitments_eq, progress.partials_eq,
      progress.nodes_eq, List.append_nil, List.map_append, List.map_singleton]
  · intro j hj hunsigned
    exact progress.held_eq j hj (List.mem_cons_of_mem i hunsigned)

end SessionProgress

section Keys

variable {E P : Type}

/-- The key shares of a node. -/
def CraftSecNode.keys (node : CraftSecNode E P) :
    (String → Option (KeyShare P)) × KeyShare P :=
  (node.keyShares, node.keyShare)

variable [EdwardsGroup P]

theorem keyShareAt_eq_of_keys {nodes nodes' : List (CraftSecNode E P)}
    (hkeys : nodes'.map CraftSecNode.keys = nodes.map CraftSecNode.keys)
    (i : ℕ) : keyShareAt nodes' i = keyShareAt nodes i := by
  have hat := congrArg (·[i]?) hkeys
  simp only [List.getElem?_map] at hat
  rw [keyShareAt, keyShareAt]
  cases hnode : nodes[i]? with
  | none =>
      rw [hnode, Option.map_none, Option.map_eq_none_iff] at hat
      rw [hat]
  | some node =>
      rw [hnode, Option.map_some, Option.map_eq_some_iff] at hat
      obtain ⟨node', hnode', heq⟩ := hat
      rw [hnode']
      exact congrArg Prod.snd heq

/-- Nodes with one share use it for every program. -/
theorem programShareAt_of_keys {nodes nodes' : List (CraftSecNode E P)}
    (hkeys : nodes'.map CraftSecNode.keys = nodes.map CraftSecNode.keys)
    (hdefault : ∀ node ∈ nodes, ∀ programCid,
      node.getKeyShare programCid = node.keyShare)
    (programCid : String) (i : ℕ) :
    programShareAt nodes' programCid i = keyShareAt nodes i := by
  rw [← keyShareAt_eq_of_keys hkeys, programShareAt, keyShareAt]
  cases hnode : nodes'[i]? with
  | none => rfl
  | some node' =>
      have hmem : node'.keys ∈ nodes.map CraftSecNode.keys := by
        rw [← hkeys]
        exact List.mem_map_of_mem (List.mem_of_getElem? hnode)
      obtain ⟨node, hnode', heq⟩ := List.mem_map.mp hmem
      obtain ⟨hprograms, hshare⟩ := Prod.mk.inj heq
      have hone := hdefault node hnode' programCid
      rw [CraftSecNode.getKeyShare, hprograms, hshare] at hone
      exact hone

variable [ProgramExecutor E]

/-- A `Valid` answer comes with a commitment to the nonce left in the slot. -/
theorem LocalTransport.round1_of_valid (transport : LocalTransport E P) {i : ℕ}
    {request : AttestationRequest}
    (hvalid : isValidAnswer (transport.round1 i request).1 = true) :
    ∃ tx nonce,
      (transport.round1 i request).1 =
        .ok ⟨.valid tx, some nonce.commitment⟩ ∧
      nonce.index =
        (programShareAt transport.nodes request.programCid i).index ∧
      (transport.round1 i request).2.held i = some nonce := by
  rcases transport.round1_cases i request with
    ⟨-, heq⟩ | ⟨node, node', rng, hnode, rfl, hcases⟩
  · rw [heq] at hvalid
    cases hvalid
  · rcases hcases with ⟨tx, happroved, -⟩ | ⟨reason, -, heq⟩ |
      ⟨abort, -, -, heq⟩
    · have hat : approvedAt transport.nodes request i = some tx := by
        rw [approvedAt, hnode]
        exact happroved
      obtain ⟨nonce, after, heq, hindex, hheld⟩ :=
        transport.round1_of_approvedAt hat
      rw [heq]
      exact ⟨tx, nonce, rfl, hindex, hheld⟩
    · rw [heq] at hvalid
      cases hvalid
    · rw [heq] at hvalid
      cases hvalid

end Keys

namespace Sessions

variable {ι : Type u} [DecidableEq ι] {E P : Type} [EdwardsGroup P]
  [ProgramExecutor E] [Sha512]

/-- The nodes keep their keys, and session `s` progresses as long as its nodes
approve. -/
structure SessionInvariant (plans : ι → SessionPlan)
    (nodes : List (CraftSecNode E P)) (s : ι) (system : Sessions ι E P) :
    Prop where
  keys : system.transport.nodes.map CraftSecNode.keys =
    nodes.map CraftSecNode.keys
  progress : (system.session s).AllValid →
    ∃ nonce asked waiting signed unsigned,
      SessionProgress (plans s) (keyShareAt nodes) system.transport
        (system.session s) nonce asked waiting signed unsigned

variable {plans : ι → SessionPlan} {nodes : List (CraftSecNode E P)} {s : ι}
  {system : Sessions ι E P}

omit [DecidableEq ι] [ProgramExecutor E] in
theorem sessionInvariant_start (plans : ι → SessionPlan) (s : ι)
    (transport : LocalTransport E P) :
    SessionInvariant plans transport.nodes s (start plans transport) where
  keys := rfl
  progress _ := ⟨fun _ => ⟨0, 0, 0⟩, [], (plans s).nodes, [],
    (plans s).signing, rfl, rfl, Or.inl rfl, rfl, rfl, rfl,
    fun _ hmem => absurd hmem List.not_mem_nil, rfl,
    fun _ hmem => absurd hmem List.not_mem_nil⟩

theorem step_nil (htodo : (system.session s).todo = []) :
    step plans system s = system := by
  rw [step, htodo]

theorem step_round1 (plans : ι → SessionPlan) {i : ℕ} {later : List SessionCall}
    (htodo : (system.session s).todo = .round1 i :: later) :
    (step plans system s).transport =
        (system.transport.round1 i (plans s).request).2 ∧
      (step plans system s).session s =
        ⟨later, (system.session s).answers ++
            [(i, (system.transport.round1 i (plans s).request).1)],
          (system.session s).partials⟩ := by
  rw [step, htodo]
  exact ⟨rfl, Function.update_self _ _ _⟩

theorem step_round2 (plans : ι → SessionPlan) {i : ℕ} {later : List SessionCall}
    (htodo : (system.session s).todo = .round2 i :: later) :
    (step plans system s).transport = system.transport ∧
      (step plans system s).session s =
        ⟨later, (system.session s).answers, (system.session s).partials ++
          [system.transport.round2 i (plans s).message
            (system.session s).commitments]⟩ := by
  rw [step, htodo]
  exact ⟨rfl, Function.update_self _ _ _⟩

/-- A step of another session leaves this one where it is, and touches the
transport only by its round 1 calls. -/
theorem step_other (plans : ι → SessionPlan) (system : Sessions ι E P)
    {other : ι} (hother : other ≠ s) :
    (step plans system other).session s = system.session s ∧
      ((step plans system other).transport = system.transport ∨
        ∃ i later, (system.session other).todo = .round1 i :: later ∧
          (step plans system other).transport =
            (system.transport.round1 i (plans other).request).2) := by
  rw [step]
  split
  next => exact ⟨rfl, Or.inl rfl⟩
  next i later htodo =>
    exact ⟨Function.update_of_ne (Ne.symm hother) _ _,
      Or.inr ⟨i, later, htodo, rfl⟩⟩
  next => exact ⟨Function.update_of_ne (Ne.symm hother) _ _, Or.inl rfl⟩

theorem SessionInvariant.step_other
    (hinv : SessionInvariant plans nodes s system) {other : ι}
    (hother : other ≠ s)
    (hundisturbed : ∀ i later,
      (system.session other).todo = .round1 i :: later →
        ¬ (system.session s).Pending i) :
    SessionInvariant plans nodes s (step plans system other) := by
  obtain ⟨hsession, htransport⟩ := Sessions.step_other plans system hother
  rcases htransport with htransport | ⟨i, later, htodo, htransport⟩
  · constructor
    · rw [htransport]
      exact hinv.keys
    · rw [hsession, htransport]
      exact hinv.progress
  · constructor
    · rw [htransport, system.transport.map_round1 _ fun _ _ => rfl]
      exact hinv.keys
    · rw [hsession, htransport]
      intro hvalid
      obtain ⟨nonce, asked, waiting, signed, unsigned, progress⟩ :=
        hinv.progress hvalid
      refine ⟨nonce, asked, waiting, signed, unsigned,
        progress.of_held fun j hpending => ?_⟩
      apply system.transport.held_round1_of_ne
      rintro rfl
      exact hundisturbed i later htodo hpending

/-- A step of the session itself. -/
theorem SessionInvariant.step_self
    (hinv : SessionInvariant plans nodes s system)
    (hdefault : ∀ node ∈ nodes, ∀ programCid,
      node.getKeyShare programCid = node.keyShare)
    (hnodup : (plans s).nodes.Nodup)
    (hsigning : ∀ i ∈ (plans s).signing, i ∈ (plans s).nodes) :
    SessionInvariant plans nodes s (step plans system s) := by
  cases htodo : (system.session s).todo with
  | nil =>
      rw [step_nil htodo]
      exact hinv
  | cons call later =>
      cases call with
      | round1 i =>
          obtain ⟨htransport, hsession⟩ := step_round1 plans htodo
          constructor
          · rw [htransport, system.transport.map_round1 _ fun _ _ => rfl]
            exact hinv.keys
          · rw [hsession, htransport]
            intro hvalid
            obtain ⟨nonce, asked, waiting, signed, unsigned, progress⟩ :=
              hinv.progress fun answer hanswer =>
                hvalid answer (List.mem_append_left _ hanswer)
            obtain ⟨tx, own, hanswer, hindex, hheld⟩ :=
              system.transport.round1_of_valid (hvalid _
                (List.mem_append_right _ (List.mem_singleton_self _)))
            rw [programShareAt_of_keys hinv.keys hdefault] at hindex
            rw [progress.todo_eq] at htodo
            cases waiting with
            | nil =>
                cases unsigned with
                | nil => cases htodo
                | cons => cases htodo
            | cons next waiting =>
                cases htodo
                exact ⟨_, _, _, _, _, hanswer ▸ progress.round1 hnodup hindex
                  hheld fun j hne =>
                    system.transport.held_round1_of_ne hne _⟩
      | round2 i =>
          obtain ⟨htransport, hsession⟩ := step_round2 plans htodo
          constructor
          · rw [htransport]
            exact hinv.keys
          · rw [hsession, htransport]
            intro hvalid
            obtain ⟨nonce, asked, waiting, signed, unsigned, progress⟩ :=
              hinv.progress hvalid
            rw [progress.todo_eq] at htodo
            cases waiting with
            | cons => cases htodo
            | nil =>
                cases unsigned with
                | nil => cases htodo
                | cons next unsigned =>
                    cases htodo
                    have hasked : i ∈ asked := by
                      have hnode := hsigning i (by
                        rw [progress.signing_eq]
                        exact List.mem_append_right _ List.mem_cons_self)
                      rwa [progress.nodes_eq, List.append_nil] at hnode
                    have hheld := progress.held_eq i hasked List.mem_cons_self
                    refine ⟨nonce, asked, [], signed ++ [i], unsigned,
                      progress.round2 ?_⟩
                    rw [system.transport.round2_of_held hheld,
                      keyShareAt_eq_of_keys hinv.keys]

/-- The invariant holds after every undisturbed interleaving. -/
theorem SessionInvariant.run
    (hdefault : ∀ node ∈ nodes, ∀ programCid,
      node.getKeyShare programCid = node.keyShare)
    (hnodup : (plans s).nodes.Nodup)
    (hsigning : ∀ i ∈ (plans s).signing, i ∈ (plans s).nodes)
    (hinv : SessionInvariant plans nodes s system) {schedule : List ι}
    (hundisturbed : Undisturbed plans s system schedule) :
    SessionInvariant plans nodes s (Sessions.run plans system schedule) := by
  induction schedule generalizing system with
  | nil => exact hinv
  | cons other rest ih =>
      obtain ⟨hnow, hlater⟩ := hundisturbed
      apply ih _ hlater
      by_cases hother : other = s
      · rw [hother]
        exact hinv.step_self hdefault hnodup hsigning
      · exact hinv.step_other hother (hnow hother)

/-- A session that is done cannot be disturbed. -/
theorem undisturbed_of_done (hdone : (system.session s).todo = [])
    (schedule : List ι) : Undisturbed plans s system schedule := by
  induction schedule generalizing system with
  | nil => trivial
  | cons other rest ih =>
      refine ⟨?_, ih ?_⟩
      · rintro - i later - ⟨-, hpending⟩
        rw [hdone] at hpending
        exact List.not_mem_nil hpending
      · by_cases hother : other = s
        · rw [hother, step_nil hdone]
          exact hdone
        · rw [(Sessions.step_other plans system hother).1]
          exact hdone

/-- Nor can one that has not started, until it moves. -/
theorem undisturbed_of_unstarted {other : ι} (hother : other ≠ s)
    (hanswers : (system.session s).answers = []) (count : ℕ)
    {schedule : List ι}
    (hrest : ∀ system' : Sessions ι E P, Undisturbed plans s system' schedule) :
    Undisturbed plans s system (List.replicate count other ++ schedule) := by
  induction count generalizing system with
  | zero => exact hrest system
  | succ count ih =>
      refine ⟨?_, ih ?_⟩
      · rintro - i later - ⟨hpending, -⟩
        rw [hanswers] at hpending
        exact List.not_mem_nil hpending
      · rw [(Sessions.step_other plans system hother).1]
        exact hanswers

/-- While only the session itself moves it is not disturbed, and it gets one
call further with every move. -/
theorem undisturbed_alone (count : ℕ) {schedule : List ι}
    (hrest : ∀ system' : Sessions ι E P, (system'.session s).todo =
        (system.session s).todo.drop count →
      Undisturbed plans s system' schedule) :
    Undisturbed plans s system (List.replicate count s ++ schedule) := by
  induction count generalizing system with
  | zero => exact hrest system rfl
  | succ count ih =>
      refine ⟨fun hself => absurd rfl hself, ih fun system' htodo' => ?_⟩
      apply hrest
      rw [htodo']
      cases htodo : (system.session s).todo with
      | nil => rw [step_nil htodo, htodo, List.drop_nil, List.drop_nil]
      | cons call later =>
          cases call with
          | round1 i => rw [(step_round1 plans htodo).2, List.drop_succ_cons]
          | round2 i => rw [(step_round2 plans htodo).2, List.drop_succ_cons]

/-- Two sessions that run one after the other do not disturb each other. -/
theorem undisturbed_sequential (plans : ι → SessionPlan)
    (transport : LocalTransport E P) {first second : ι}
    (hne : first ≠ second) (count : ℕ) :
    Undisturbed plans first (start plans transport)
        (List.replicate (plans first).calls.length first ++
          List.replicate count second) ∧
      Undisturbed plans second (start plans transport)
        (List.replicate (plans first).calls.length first ++
          List.replicate count second) := by
  constructor
  · apply undisturbed_alone
    intro system' htodo
    apply undisturbed_of_done
    rw [htodo]
    exact List.drop_length
  · apply undisturbed_of_unstarted hne rfl
    intro system'
    have halone : Undisturbed plans second system'
        (List.replicate count second ++ []) :=
      undisturbed_alone count fun _ _ => trivial
    rwa [List.append_nil] at halone

end Sessions

/-- A plan calls at least `t` different nodes of `count`, each once in either
round. -/
structure SessionPlan.Sound (plan : SessionPlan) (t count : ℕ) : Prop where
  nodup : plan.nodes.Nodup
  lt : ∀ i ∈ plan.nodes, i < count
  signing_perm : plan.signing.Perm plan.nodes
  enough : t ≤ plan.nodes.length

section Result

variable {E P : Type} [EdwardsGroup P] [Sha512] [DecidableEq P]

/-- The aggregate of a finished session over holders of a sharing. -/
theorem SessionProgress.verify_signature {F : Scalar[X]} {plan : SessionPlan}
    {keyShare : ℕ → KeyShare P} {transport : LocalTransport E P}
    {session : SessionState P} {nonce : ℕ → SigningNonce}
    (progress : SessionProgress plan keyShare transport session nonce
      plan.nodes [] plan.signing [])
    (hperm : plan.signing.Perm plan.nodes)
    (hnodup : (plan.nodes.map fun i => (keyShare i).index).Nodup)
    (hdegree : F.degree < plan.nodes.length)
    (hshare : ∀ i ∈ plan.nodes,
      (keyShare i).secret = F.eval (keyShare i).index.toScalar ∧
        (keyShare i).groupPublicKey = basepointMul (F.eval 0)) :
    verify (session.signature plan.message) (basepointMul (F.eval 0))
      plan.message = .ok ⟨⟩ := by
  have hindices : (plan.nodes.map fun i =>
      (nonce i).commitment (P := P)).map SigningCommitment.index =
      plan.nodes.map fun i => (keyShare i).index := by
    rw [List.map_map]
    apply List.map_congr_left
    intro i hi
    exact progress.index_eq i hi
  have hpartials : session.partials.filterMap answeredPartial =
      plan.signing.map fun i => honestPartial (keyShare i) (nonce i)
        plan.message (plan.nodes.map fun j => (nonce j).commitment) := by
    rw [progress.partials_eq, List.filterMap_map]
    exact congrFun List.filterMap_eq_map plan.signing
  rw [SessionState.signature, progress.commitments_eq, hpartials]
  apply verify_aggregate_of_partials
  · rwa [hindices]
  · rwa [List.length_map]
  · rw [hindices, List.map_map]
    exact hperm.map _
  · intro part hpart c hc hindex
    rw [List.mem_map] at hpart hc
    obtain ⟨i, hi, rfl⟩ := hpart
    obtain ⟨j, hj, rfl⟩ := hc
    have hnode := hperm.mem_iff.mp hi
    have hsame : j = i := by
      apply (List.nodup_map_iff_inj_on hnodup.of_map).mp hnodup _ hj _ hnode
      rw [← progress.index_eq j hj]
      exact hindex
    subst hsame
    have hcheck := verifyPartial_honestPartial (keyShare j) (nonce j)
      plan.message (plan.nodes.map fun k => (nonce k).commitment)
    rwa [(hshare j hj).1, (hshare j hj).2] at hcheck

omit [Sha512] [DecidableEq P] in
theorem keyShareAt_of_lt {nodes : List (CraftSecNode E P)} {i : ℕ}
    (hi : i < nodes.length) : keyShareAt nodes i = nodes[i].keyShare := by
  rw [keyShareAt, List.getElem?_eq_getElem hi]

omit [Sha512] [DecidableEq P] in
/-- Different nodes of a plan hold shares with different indices. -/
theorem SessionPlan.Sound.nodup_index {plan : SessionPlan} {t : ℕ}
    {nodes : List (CraftSecNode E P)} (hplan : plan.Sound t nodes.length)
    (hdistinct : (nodes.map fun node => node.keyShare.index).Nodup) :
    (plan.nodes.map fun i => (keyShareAt nodes i).index).Nodup := by
  apply List.Nodup.map_on _ hplan.nodup
  intro i hi j hj heq
  rw [keyShareAt_of_lt (hplan.lt i hi), keyShareAt_of_lt (hplan.lt j hj)] at heq
  have hlt : ∀ k ∈ plan.nodes,
      k < (nodes.map fun node => node.keyShare.index).length := by
    intro k hk
    rw [List.length_map]
    exact hplan.lt k hk
  have hi' := hlt i hi
  have hj' := hlt j hj
  have hsame : (nodes.map fun node => node.keyShare.index)[i] =
      (nodes.map fun node => node.keyShare.index)[j] := by
    rwa [List.getElem_map, List.getElem_map]
  exact hdistinct.getElem_inj_iff.mp hsame

variable {ι : Type u} [DecidableEq ι] [ProgramExecutor E]

/-- In any interleaving of any number of sessions, a session whose nodes all
approve ends with a signature of the group, provided no other session opens a
round on one of its nodes between its own two rounds there. -/
theorem interleaved_session_verifies {t : ℕ} {shares : List (KeyShare P)}
    (hwf : WellFormed t shares) {transport : LocalTransport E P}
    (hmember : ∀ node ∈ transport.nodes, node.keyShare ∈ shares ∧
      ∀ programCid, node.getKeyShare programCid = node.keyShare)
    (hdistinct : (transport.nodes.map fun node => node.keyShare.index).Nodup)
    {plans : ι → SessionPlan} {s : ι}
    (hplan : (plans s).Sound t transport.nodes.length) {schedule : List ι}
    (hundisturbed : Sessions.Undisturbed plans s
      (Sessions.start plans transport) schedule)
    (hdone : ((Sessions.run plans (Sessions.start plans transport)
      schedule).session s).todo = [])
    (hvalid : ((Sessions.run plans (Sessions.start plans transport)
      schedule).session s).AllValid) :
    ∀ share ∈ shares,
      verify (((Sessions.run plans (Sessions.start plans transport)
          schedule).session s).signature (plans s).message)
        share.groupPublicKey (plans s).message = .ok ⟨⟩ := by
  obtain ⟨F, hdegree, hsharing⟩ := hwf
  have hshares : ∀ i ∈ (plans s).nodes,
      keyShareAt transport.nodes i ∈ shares := by
    intro i hi
    rw [keyShareAt_of_lt (hplan.lt i hi)]
    exact (hmember _ (List.getElem_mem _)).1
  have hinv := (Sessions.sessionInvariant_start plans s transport).run
    (fun node hnode => (hmember node hnode).2) hplan.nodup
    (fun i hi => hplan.signing_perm.mem_iff.mp hi) hundisturbed
  obtain ⟨nonce, asked, waiting, signed, unsigned, progress⟩ :=
    hinv.progress hvalid
  -- nothing is left to do
  have htodo := progress.todo_eq
  rw [hdone] at htodo
  obtain ⟨hwaiting, hunsigned⟩ := List.append_eq_nil_iff.mp htodo.symm
  rw [List.map_eq_nil_iff] at hwaiting hunsigned
  have hasked : asked = (plans s).nodes := by
    rw [progress.nodes_eq, hwaiting, List.append_nil]
  have hsigned : signed = (plans s).signing := by
    rw [progress.signing_eq, hunsigned, List.append_nil]
  rw [hwaiting, hunsigned, hasked, hsigned] at progress
  intro share hshare
  rw [hsharing.groupPublicKey_eq share hshare]
  apply progress.verify_signature hplan.signing_perm
    (hplan.nodup_index hdistinct)
  · exact lt_of_lt_of_le hdegree (by exact_mod_cast hplan.enough)
  · intro i hi
    exact ⟨hsharing.secret_eq_eval (hshares i hi),
      hsharing.groupPublicKey_eq _ (hshares i hi)⟩

end Result

/-- Two sessions that share the second of three nodes. -/
def overlappingPlans : Bool → SessionPlan
  | false => ⟨sampleRequest, utf8 "first", [0, 1], [0, 1]⟩
  | true => ⟨sampleRequest, utf8 "second", [1, 2], [1, 2]⟩

/-- Three approving nodes and a byte source without repeated nonces. -/
def overlappingTransport : LocalTransport ProgramRegistry ReferencePoint :=
  .new
    [approvingNode (linearShare 3 3 1) sampleTransaction,
      approvingNode (linearShare 3 3 2) sampleTransaction,
      approvingNode (linearShare 3 3 3) sampleTransaction]
    (rngOfScalars fun k => ((k + 1 : ℕ) : Scalar))

theorem overlappingTransport_member :
    ∀ node ∈ overlappingTransport.nodes, node.keyShare ∈ linearShares 3 3 ∧
      ∀ programCid, node.getKeyShare programCid = node.keyShare := by
  intro node hnode
  change node ∈ [_, _, _] at hnode
  simp only [List.mem_cons, List.not_mem_nil, or_false] at hnode
  rcases hnode with rfl | rfl | rfl
  · exact ⟨linearShare_mem 3 3 (by decide) (by decide), fun _ => rfl⟩
  · exact ⟨linearShare_mem 3 3 (by decide) (by decide), fun _ => rfl⟩
  · exact ⟨linearShare_mem 3 3 (by decide) (by decide), fun _ => rfl⟩

theorem overlappingPlans_sound (s : Bool) :
    (overlappingPlans s).Sound 2 overlappingTransport.nodes.length := by
  cases s with
  | false => constructor <;> decide
  | true => constructor <;> decide

/-- One after the other, the second session ends with a signature. -/
theorem interleaved_session_verifies_sequential :
    letI := sha512Reference
    let final := Sessions.run overlappingPlans
      (Sessions.start overlappingPlans overlappingTransport)
      (List.replicate 4 false ++ List.replicate 4 true)
    ∀ share ∈ linearShares 3 3,
      verify ((final.session true).signature (utf8 "second"))
        share.groupPublicKey (utf8 "second") = .ok ⟨⟩ := by
  let _ := sha512Reference
  exact interleaved_session_verifies (wellFormed_linearShares 3 3)
    overlappingTransport_member (by decide +kernel)
    (overlappingPlans_sound true)
    (Sessions.undisturbed_sequential overlappingPlans overlappingTransport
      Bool.false_ne_true 4).2 (by decide +kernel) (by decide +kernel)

/-- The second session opens its round on the shared node before the first one
signs there, and the first one is rejected. -/
theorem overlapping_session_rejected :
    letI := sha512Reference
    let final := Sessions.run overlappingPlans
      (Sessions.start overlappingPlans overlappingTransport)
      [false, false, true, true, false, false, true, true]
    (∀ s, (overlappingPlans s).Sound 2 overlappingTransport.nodes.length ∧
        (final.session s).todo = [] ∧ (final.session s).AllValid) ∧
      verify ((final.session false).signature (utf8 "first"))
        (linearShare 3 3 1).groupPublicKey (utf8 "first") ≠ .ok ⟨⟩ := by
  let _ := sha512Reference
  intro final
  refine ⟨?_, ?_⟩
  · intro s
    refine ⟨overlappingPlans_sound s, ?_, ?_⟩
    · cases s with
      | false => decide +kernel
      | true => decide +kernel
    · cases s with
      | false => decide +kernel
      | true => decide +kernel
  · decide +kernel

end CraftSec
