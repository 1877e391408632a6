/-
Sessions for a program.  Some nodes take a request through both rounds and sign
with their shares for its program; together with the book of keys this says
what a signature is worth after any operations on the nodes.
-/
import CraftSec.Node.Fleet

open scoped Polynomial

namespace CraftSec

section Related

theorem exists_of_mem_right {α β : Type} {R : α → β → Prop} {xs : List α}
    {ys : List β} (hrelated : List.Forall₂ R xs ys) {y : β} (hmem : y ∈ ys) :
    ∃ x ∈ xs, R x y := by
  induction hrelated with
  | nil => cases hmem
  | cons hhead _ ih =>
      rcases List.mem_cons.mp hmem with rfl | hmem
      · exact ⟨_, List.mem_cons_self, hhead⟩
      · obtain ⟨x, hx, hR⟩ := ih hmem
        exact ⟨x, List.mem_cons_of_mem _ hx, hR⟩

theorem exists_of_mem_left {α β : Type} {R : α → β → Prop} {xs : List α}
    {ys : List β} (hrelated : List.Forall₂ R xs ys) {x : α} (hmem : x ∈ xs) :
    ∃ y ∈ ys, R x y := by
  obtain ⟨y, hy, hR⟩ := exists_of_mem_right hrelated.flip hmem
  exact ⟨y, hy, hR⟩

theorem map_eq_of_forall₂ {α β γ : Type} {R : α → β → Prop} {xs : List α}
    {ys : List β} (hrelated : List.Forall₂ R xs ys) {f : α → γ} {g : β → γ}
    (hsame : ∀ {x y}, R x y → g y = f x) : xs.map f = ys.map g := by
  induction hrelated with
  | nil => rfl
  | cons hhead _ ih => rw [List.map_cons, List.map_cons, ih, hsame hhead]

end Related

section Sessions

variable {E P : Type} [EdwardsGroup P] [ProgramExecutor E]

/-- Round 1 at some nodes in turn, with one byte source. -/
def processAll (request : AttestationRequest) :
    List (CraftSecNode E P) → Rng →
      Outcome (List (CraftSecNode E P × NodeResponse P))
  | [], _ => .ok []
  | node :: rest, rng =>
      match node.processRequest request rng with
      | (.error abort, _, _) => .error abort
      | (.ok response, node, rng) => do
          let later ← processAll request rest rng
          return (node, response) :: later

/-- The transaction of a result that is known to be valid. -/
def validTransaction : AttestationResult → Outcome Transaction
  | .valid tx => .ok tx
  | .invalid _ => Outcome.panic

variable [Sha512] [FloatFormat]

/-- Both rounds at some nodes: the first one's transaction is signed with the
shares for the program. -/
def programSession (request : AttestationRequest)
    (signers : List (CraftSecNode E P)) (rng : Rng) :
    Outcome (Transaction × ThresholdSignature P) := do
  let responses ← processAll request signers rng
  let first ← index responses 0
  let tx ← validTransaction first.2.result
  let message := tx.signingBytes
  let commitments ← responses.mapM fun entry => unwrap entry.2.commitment
  let partials ← responses.mapM fun entry => do
    let nonce ← unwrap entry.2.nonce
    let signature ← entry.1.signForProgram request.programCid nonce message
      commitments
    return signature.part
  return (tx, aggregate message commitments partials)

/-- The share and the nonce that a node answers with, for the program. -/
def signerOf (programCid : String)
    (entry : CraftSecNode E P × NodeResponse P) : Signer P :=
  ⟨entry.1.getKeyShare programCid, entry.2.nonce.getD ⟨0, 0, 0⟩⟩

/-- An answer of a node: with a commitment to its nonce if it approves, and
with neither otherwise. -/
structure Answers (request : AttestationRequest) (node : CraftSecNode E P)
    (entry : CraftSecNode E P × NodeResponse P) : Prop where
  keyShare_eq : entry.1.getKeyShare request.programCid =
    node.getKeyShare request.programCid
  approves : ∀ tx, node.approved request = some tx →
    entry.2 = ⟨.valid tx,
      some (signerOf request.programCid entry).nonce.commitment,
      some (signerOf request.programCid entry).nonce⟩ ∧
    (signerOf request.programCid entry).nonce.index =
      (node.getKeyShare request.programCid).index
  rejects : node.approved request = none → entry.2.commitment = none

omit [Sha512] [FloatFormat] in
/-- Round 1 at one node. -/
theorem answers_of_processRequest {node after : CraftSecNode E P}
    {request : AttestationRequest} {response : NodeResponse P} {rng rng' : Rng}
    (hprocess : node.processRequest request rng =
      (.ok response, after, rng')) :
    Answers request node (after, response) := by
  obtain ⟨registry, -, ⟨tx, happroved, heq⟩ | ⟨reason, happroved, heq⟩ |
    ⟨abort, -, -, heq⟩⟩ := node.processRequest_cases request rng
  · rw [hprocess] at heq
    cases heq
    refine ⟨rfl, fun other hother => ?_, fun hnone => ?_⟩
    · rw [happroved] at hother
      cases hother
      exact ⟨rfl, rfl⟩
    · rw [happroved] at hnone
      cases hnone
  · rw [hprocess] at heq
    cases heq
    refine ⟨rfl, fun other hother => ?_, fun _ => rfl⟩
    rw [happroved] at hother
    cases hother
  · rw [hprocess] at heq
    cases heq

omit [Sha512] [FloatFormat] in
theorem processAll_answers {request : AttestationRequest}
    {signers : List (CraftSecNode E P)} {rng : Rng}
    {responses : List (CraftSecNode E P × NodeResponse P)}
    (hprocess : processAll request signers rng = .ok responses) :
    List.Forall₂ (Answers request) signers responses := by
  induction signers generalizing rng responses with
  | nil =>
      cases hprocess
      exact List.Forall₂.nil
  | cons node rest ih =>
      rw [processAll] at hprocess
      split at hprocess
      next => cases hprocess
      next response after rng' hnode =>
        cases hlater : processAll request rest rng' with
        | error abort =>
            rw [hlater] at hprocess
            cases hprocess
        | ok later =>
            rw [hlater] at hprocess
            cases hprocess
            exact List.Forall₂.cons (answers_of_processRequest hnode)
              (ih hlater)

omit [Sha512] [FloatFormat] in
/-- Nodes that all approve all answer. -/
theorem exists_processAll {request : AttestationRequest}
    {signers : List (CraftSecNode E P)}
    (happroved : ∀ node ∈ signers, (node.approved request).isSome) (rng : Rng) :
    ∃ responses, processAll request signers rng = .ok responses := by
  induction signers generalizing rng with
  | nil => exact ⟨[], rfl⟩
  | cons node rest ih =>
      obtain ⟨hnode, hrest⟩ := List.forall_mem_cons.mp happroved
      obtain ⟨tx, htx⟩ := Option.isSome_iff_exists.mp hnode
      obtain ⟨registry, -, ⟨other, -, heq⟩ | ⟨reason, hnone, -⟩ |
        ⟨abort, hnone, -, -⟩⟩ := node.processRequest_cases request rng
      · obtain ⟨later, hlater⟩ := ih hrest (generateNonces (P := P)
          (node.getKeyShare request.programCid).index rng).2
        simp only [processAll, heq, hlater]
        exact ⟨_, rfl⟩
      · rw [htx] at hnone
        cases hnone
      · rw [htx] at hnone
        cases hnone

/-- A session of nodes that all approve: what the first one approves is signed
with the shares for the program. -/
theorem programSession_eq {request : AttestationRequest}
    {signers : List (CraftSecNode E P)} {first : CraftSecNode E P}
    (hfirst : signers.head? = some first)
    (happroved : ∀ node ∈ signers, (node.approved request).isSome) (rng : Rng) :
    ∃ tx responses, first.approved request = some tx ∧
      List.Forall₂ (Answers request) signers responses ∧
      programSession request signers rng = .ok (tx,
        aggregate tx.signingBytes
          ((responses.map (signerOf request.programCid)).map
            fun signer => signer.nonce.commitment)
          ((responses.map (signerOf request.programCid)).map fun signer =>
            honestPartial signer.keyShare signer.nonce tx.signingBytes
              ((responses.map (signerOf request.programCid)).map
                fun other => other.nonce.commitment))) := by
  obtain ⟨responses, hprocess⟩ := exists_processAll happroved rng
  have hanswers := processAll_answers hprocess
  have hentry : ∀ entry ∈ responses, ∃ tx, entry.2 =
      ⟨.valid tx, some (signerOf request.programCid entry).nonce.commitment,
        some (signerOf request.programCid entry).nonce⟩ := by
    intro entry hmem
    obtain ⟨node, hnode, hanswer⟩ := exists_of_mem_right hanswers hmem
    obtain ⟨tx, htx⟩ := Option.isSome_iff_exists.mp (happroved node hnode)
    exact ⟨tx, (hanswer.approves tx htx).1⟩
  cases hanswers with
  | nil => cases hfirst
  | @cons node entry rest later hanswer hlater =>
      cases hfirst
      obtain ⟨tx, htx⟩ := Option.isSome_iff_exists.mp
        (happroved first List.mem_cons_self)
      have hresponse := (hanswer.approves tx htx).1
      have hcommitments := mapM_eq_ok (entry :: later)
        (fun entry => unwrap entry.2.commitment)
        (fun entry => (signerOf request.programCid entry).nonce.commitment)
        fun other hother => by
          obtain ⟨tx, heq⟩ := hentry other hother
          rw [heq]
          rfl
      refine ⟨tx, entry :: later, htx, List.Forall₂.cons hanswer hlater, ?_⟩
      have hindex : index (entry :: later) 0 = .ok entry := rfl
      have hvalid : validTransaction (.valid tx) = .ok tx := rfl
      have hpartials := fun commitments => mapM_eq_ok (entry :: later)
        (fun entry => do
          let nonce ← unwrap entry.2.nonce
          let signature ← entry.1.signForProgram request.programCid nonce
            tx.signingBytes commitments
          return signature.part)
        (fun entry => honestPartial
          (signerOf request.programCid entry).keyShare
          (signerOf request.programCid entry).nonce tx.signingBytes commitments)
        fun other hother => by
          obtain ⟨tx, heq⟩ := hentry other hother
          rw [heq]
          rfl
      rw [programSession, hprocess]
      simp only [ok_bind, hindex, hresponse, hvalid, hcommitments, hpartials,
        List.map_map]
      rfl

/-- A session that comes to an end has the approval of all its nodes. -/
theorem approved_of_programSession {request : AttestationRequest}
    {signers : List (CraftSecNode E P)} {rng : Rng}
    {result : Transaction × ThresholdSignature P}
    (hok : programSession request signers rng = .ok result) :
    ∀ node ∈ signers, (node.approved request).isSome := by
  rw [programSession] at hok
  obtain ⟨responses, hprocess, hok⟩ := exists_of_bind_eq_ok hok
  obtain ⟨first, -, hok⟩ := exists_of_bind_eq_ok hok
  obtain ⟨tx, -, hok⟩ := exists_of_bind_eq_ok hok
  obtain ⟨commitments, hcommitments, -⟩ := exists_of_bind_eq_ok hok
  intro node hnode
  obtain ⟨entry, hentry, hanswer⟩ := exists_of_mem_left
    (processAll_answers hprocess) hnode
  obtain ⟨commitment, hunwrap⟩ := exists_of_mapM_eq_ok hcommitments entry hentry
  cases happroved : node.approved request with
  | some tx => rfl
  | none =>
      rw [hanswer.rejects happroved] at hunwrap
      cases hunwrap

variable [DecidableEq P]

/-- A session of enough nodes with distinct shares of one polynomial signs
under its key. -/
theorem programSession_verifies {request : AttestationRequest}
    {signers : List (CraftSecNode E P)} (hne : signers ≠ []) {F : Scalar[X]}
    (hsecret : ∀ node ∈ signers,
      (node.getKeyShare request.programCid).secret =
        F.eval (node.getKeyShare request.programCid).index.toScalar)
    (hkey : ∀ node ∈ signers,
      (node.getKeyShare request.programCid).groupPublicKey =
        basepointMul (F.eval 0))
    (hnodup : (signers.map fun node =>
      (node.getKeyShare request.programCid).index).Nodup)
    (hdegree : F.degree < signers.length)
    (happroved : ∀ node ∈ signers, (node.approved request).isSome) (rng : Rng) :
    ∃ tx signature,
      programSession request signers rng = .ok (tx, signature) ∧
      (signers.head hne).approved request = some tx ∧
      verify signature (basepointMul (F.eval 0)) tx.signingBytes = .ok ⟨⟩ := by
  obtain ⟨tx, responses, htx, hanswers, hsession⟩ :=
    programSession_eq (List.head?_eq_some_head hne) happroved rng
  refine ⟨tx, _, hsession, htx, ?_⟩
  have hanswer : ∀ entry ∈ responses, ∃ node ∈ signers,
      (signerOf request.programCid entry).keyShare =
          node.getKeyShare request.programCid ∧
        (signerOf request.programCid entry).nonce.index =
          (node.getKeyShare request.programCid).index := by
    intro entry hmem
    obtain ⟨node, hnode, hanswer⟩ := exists_of_mem_right hanswers hmem
    obtain ⟨own, hown⟩ := Option.isSome_iff_exists.mp (happroved node hnode)
    exact ⟨node, hnode, hanswer.keyShare_eq, (hanswer.approves own hown).2⟩
  have honest : HonestSigners F
      (responses.map (signerOf request.programCid)) := by
    constructor
    all_goals
      intro signer hsigner
      obtain ⟨entry, hentry, rfl⟩ := List.mem_map.mp hsigner
      obtain ⟨node, hnode, hshare, hindex⟩ := hanswer entry hentry
      rw [hshare]
    · exact hindex
    · exact hsecret node hnode
    · exact hkey node hnode
  have hindices : (responses.map (signerOf request.programCid)).map
      (fun signer => signer.keyShare.index) = signers.map fun node =>
        (node.getKeyShare request.programCid).index := by
    rw [List.map_map]
    exact (map_eq_of_forall₂ hanswers fun hanswer =>
      congrArg KeyShare.index hanswer.keyShare_eq).symm
  apply honest.verify_aggregate
  · rwa [hindices]
  · rw [List.length_map, ← hanswers.length_eq]
    exact hdegree

section Positions

variable {registries : List E} {nodes : List (CraftSecNode E P)}
  {book : KeyBook P} {positions : List ℕ} {chosen : ℕ → CraftSecNode E P}

omit [Sha512] [FloatFormat] [DecidableEq P] in
/-- The node at a position, with its programs, and what it approves. -/
theorem Keeps.exists_node (hkeeps : Keeps registries nodes book) {i : ℕ}
    (hi : i < registries.length) :
    ∃ node, nodes[i]? = some node ∧ registries[i]? = some node.registry ∧
      ∀ request, node.approved request =
        if request.programCid ∈ book.frozen then none
        else verdict node.registry request := by
  have hlt : i < nodes.length := by
    rw [hkeeps.length_eq]
    exact hi
  have hget := List.getElem?_eq_getElem hlt
  refine ⟨nodes[i], hget, ?_, fun request => ?_⟩
  · rw [← hkeeps.registries_eq, List.getElem?_map, hget]
    rfl
  · rw [← hkeeps.frozen _ (List.getElem_mem hlt)]
    exact CraftSecNode.approved_eq _ _

omit [EdwardsGroup P] [Sha512] [FloatFormat] [DecidableEq P] in
/-- Some nodes all approve exactly when the program is open and all of their
programs do. -/
theorem forall_approved_iff (hne : positions ≠ [])
    {request : AttestationRequest} {frozen : Finset String}
    (hregistry : ∀ i ∈ positions, registries[i]? = some (chosen i).registry)
    (happroved : ∀ i ∈ positions, (chosen i).approved request =
      if request.programCid ∈ frozen then none
      else verdict (chosen i).registry request) :
    (∀ node ∈ positions.map chosen, (node.approved request).isSome) ↔
      request.programCid ∉ frozen ∧ ∀ i ∈ positions,
        ∃ registry ∈ registries[i]?, (verdict registry request).isSome := by
  rw [List.forall_mem_map]
  by_cases hfrozen : request.programCid ∈ frozen
  · refine iff_of_false (fun happroves => ?_) fun hopen => hopen.1 hfrozen
    obtain ⟨first, hfirst⟩ := List.exists_mem_of_ne_nil _ hne
    have hnone := happroves first hfirst
    rw [happroved first hfirst, if_pos hfrozen] at hnone
    cases hnone
  · refine ⟨fun happroves => ⟨hfrozen, fun i hi => ?_⟩, fun hopen i hi => ?_⟩
    · have hi' := happroves i hi
      rw [happroved i hi, if_neg hfrozen] at hi'
      exact ⟨_, hregistry i hi, hi'⟩
    · obtain ⟨registry, hown, hverdict⟩ := hopen.2 i hi
      rw [hregistry i hi, Option.mem_some_iff] at hown
      rw [happroved i hi, if_neg hfrozen, hown]
      exact hverdict

omit [ProgramExecutor E] [Sha512] [FloatFormat] [DecidableEq P] in
/-- The shares for a program at different positions are those of different
participants. -/
theorem IsSharing.nodup_positions {F : Scalar[X]} {programCid : String}
    (hsharing : IsSharing F (programShares nodes programCid))
    (hnodup : positions.Nodup)
    (hget : ∀ i ∈ positions, nodes[i]? = some (chosen i)) :
    ((positions.map chosen).map fun node =>
      (node.getKeyShare programCid).index).Nodup := by
  have hposition : ∀ i ∈ positions,
      ((chosen i).getKeyShare programCid).index.toNat = i + 1 := by
    intro i hi
    have hshare : (programShares nodes programCid)[i]? =
        some ((chosen i).getKeyShare programCid) := by
      rw [programShares, List.getElem?_map, hget i hi]
      rfl
    obtain ⟨hlt, hat⟩ := List.getElem?_eq_some_iff.mp hshare
    rw [← hat]
    exact hsharing.index_eq i hlt
  rw [List.map_map]
  refine List.Nodup.map_on (fun i hi j hj hsame => ?_) hnodup
  have hi' := hposition i hi
  have hj' := hposition j hj
  rw [Function.comp_apply, Function.comp_apply] at hsame
  rw [hsame] at hi'
  omega

end Positions

/-- Whatever was done to the keys of a fleet, a session for a program ends with
a signature exactly when the program is not frozen in the book and the programs
of all its nodes approve; with enough nodes for the key in the book, the
signature is one under this key, on what the first node approves. -/
theorem fleet_session_verifies {registries : List E}
    {nodes : List (CraftSecNode E P)} {book : KeyBook P}
    (hstart : Keeps registries nodes book) {ops : List FleetOp}
    (hproper : ∀ op ∈ ops, op.Proper registries.length) {first : ℕ}
    {others : List ℕ} (hnodup : (first :: others).Nodup)
    (hmember : ∀ i ∈ first :: others, i < registries.length)
    (request : AttestationRequest) (rng : Rng) :
    let after := (Simulation.answers FleetOp.perform nodes ops).2
    let book := (Simulation.answers KeyBook.step book ops).2
    let session := programSession request
      ((first :: others).filterMap fun i => after[i]?) rng
    ((∃ result, session = .ok result) ↔
      request.programCid ∉ book.frozen ∧
        ∀ i ∈ first :: others, ∃ registry ∈ registries[i]?,
          (verdict registry request).isSome) ∧
    ((book.lookup request.programCid).threshold ≤ others.length + 1 →
      ∀ tx signature, session = .ok (tx, signature) →
        registries[first]?.bind (fun registry => verdict registry request) =
            some tx ∧
          verify signature (book.lookup request.programCid).key
            tx.signingBytes = .ok ⟨⟩) := by
  intro after book session
  have hkeeps : Keeps registries after book :=
    (keeps_refines.answers hproper hstart).2
  have hnode := fun i hi => hkeeps.exists_node (hmember i hi)
  have hnonempty : Nonempty (CraftSecNode E P) :=
    ⟨(hnode first List.mem_cons_self).choose⟩
  choose! chosen hget hregistry happroved using hnode
  have hsigners : (first :: others).filterMap (fun i => after[i]?) =
      (first :: others).map chosen := by
    rw [← List.filterMap_eq_map]
    exact List.filterMap_congr hget
  have hsession : session =
      programSession request ((first :: others).map chosen) rng :=
    congrArg (fun signers => programSession request signers rng) hsigners
  rw [hsession]
  have hall := forall_approved_iff (List.cons_ne_nil first others) hregistry
    fun i hi => happroved i hi request
  obtain ⟨F, hdegree, hsharing, hkey⟩ := hkeeps.shares request.programCid
  constructor
  · rw [← hall]
    constructor
    · rintro ⟨result, hok⟩
      exact approved_of_programSession hok
    · intro happroves
      obtain ⟨tx, responses, -, -, hok⟩ :=
        programSession_eq (List.head?_cons) happroves rng
      exact ⟨_, hok⟩
  · intro henough tx signature hok
    have happroves := approved_of_programSession hok
    have hlength : F.degree < ((first :: others).map chosen).length := by
      rw [List.length_map, List.length_cons]
      exact lt_of_lt_of_le hdegree (by exact_mod_cast henough)
    have hmem : ∀ node ∈ (first :: others).map chosen,
        node.getKeyShare request.programCid ∈
          programShares after request.programCid :=
      List.forall_mem_map.mpr fun i hi =>
        List.mem_map_of_mem (List.mem_of_getElem? (hget i hi))
    have hne : (first :: others).map chosen ≠ [] := List.cons_ne_nil _ _
    have hhead : ((first :: others).map chosen).head hne = chosen first := rfl
    obtain ⟨tx', signature', hok', hfirst, hverify⟩ :=
      programSession_verifies hne
        (fun node hnode => hsharing.secret_eq_eval (hmem node hnode))
        (fun node hnode => hsharing.groupPublicKey_eq _ (hmem node hnode))
        (hsharing.nodup_positions hnodup hget) hlength happroves rng
    rw [hok] at hok'
    cases hok'
    rw [hhead, happroved first List.mem_cons_self request,
      if_neg (hall.mp happroves).1] at hfirst
    rw [hregistry first List.mem_cons_self, Option.bind_some, hkey]
    exact ⟨hfirst, hverify⟩

end Sessions

section Samples

/-- Three nodes that approve a transfer, with shares of `3 + 3 * x`. -/
def sampleFleet : List (CraftSecNode ProgramRegistry ReferencePoint) :=
  (List.range' 1 3).map fun i =>
    approvingNode (linearShare 3 3 i) sampleTransaction

def sampleBook : KeyBook ReferencePoint where
  fallback := ⟨basepointMul (3 : ℕ), 2⟩
  programs _ := none
  frozen := ∅

theorem keeps_sampleFleet :
    Keeps (sampleFleet.map CraftSecNode.registry) sampleFleet sampleBook where
  shares _ := by
    refine ⟨linearPolynomial 3 3, degree_linearPolynomial_lt 3 3,
      isSharing_linearShares 3 3, ?_⟩
    rw [eval_zero_linearPolynomial]
    rfl
  frozen := by
    intro node hnode
    obtain ⟨i, -, rfl⟩ := List.mem_map.mp hnode
    rfl
  registries_eq := rfl
  nonempty := List.cons_ne_nil _ _

/-- A program gets a derived key, which is rotated and migrated to another
program. -/
def sampleOps : List FleetOp :=
  [.derive "Qm_transfer_v1" "main" ⟨2, 3⟩,
    .rotate "Qm_transfer_v1" ⟨2, 3⟩ unitRng,
    .migrate "Qm_transfer_v1" "Qm_transfer"]

theorem proper_sampleOps : ∀ op ∈ sampleOps, op.Proper 3 := by
  intro op hop
  fin_cases hop
  · exact ⟨by decide, by decide⟩
  · exact (by decide : 1 ≤ (2 : UInt32).toNat)
  · trivial

/-- Two nodes sign for the new program under the key of the old one. -/
theorem fleet_session_verifies_migrated :
    letI := sha512Reference
    letI := floatFormatReference
    ∃ key shares tx signature,
      deriveKey (P := ReferencePoint) "Qm_transfer_v1" "main" ⟨2, 3⟩ =
        .ok (key, shares) ∧
      programSession sampleRequest ([2, 0].filterMap fun i =>
          (Simulation.answers FleetOp.perform sampleFleet sampleOps).2[i]?)
        unitRng = .ok (tx, signature) ∧
      verify signature key tx.signingBytes = .ok ⟨⟩ := by
  let _ := sha512Reference
  let _ := floatFormatReference
  obtain ⟨key, shares, hderive⟩ : ∃ key shares,
      deriveKey (P := ReferencePoint) "Qm_transfer_v1" "main" ⟨2, 3⟩ =
        .ok (key, shares) := ⟨_, _, deriveKey_eq_ok _ _ (by decide)⟩
  have hlookup : (Simulation.answers KeyBook.step sampleBook
      sampleOps).2.lookup sampleRequest.programCid = ⟨key, 2⟩ := by
    change KeyBook.lookup _ "Qm_transfer" = _
    simp only [Simulation.answers, sampleOps, KeyBook.step, hderive,
      KeyBook.lookup_freeze, KeyBook.lookup_assign, if_true]
    rfl
  have hopen : "Qm_transfer" ∉ (Simulation.answers KeyBook.step sampleBook
      sampleOps).2.frozen := by
    simp [Simulation.answers, sampleOps, KeyBook.step, KeyBook.freeze,
      KeyBook.assign, sampleBook]
  obtain ⟨hiff, hverifies⟩ := fleet_session_verifies keeps_sampleFleet
    proper_sampleOps (show (2 :: [0]).Nodup by decide) (by decide)
    sampleRequest unitRng
  obtain ⟨⟨tx, signature⟩, hsession⟩ := hiff.mpr ⟨hopen, by decide⟩
  have hverify := (hverifies (by rw [hlookup]; exact Nat.le_refl 2) tx
    signature hsession).2
  rw [hlookup] at hverify
  exact ⟨_, _, tx, signature, hderive, hsession, hverify⟩

end Samples

end CraftSec
