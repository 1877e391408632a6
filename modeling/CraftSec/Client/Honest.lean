/-
Attestation over honest nodes.  Which nodes follow the protocol, and what the
others may do without getting in the way: decline before the threshold is
reached, or anything after it.
-/
import CraftSec.Client.Client

open scoped Polynomial

namespace CraftSec

variable {T P : Type} [NodeTransport T P] [EdwardsGroup P] [Sha512]

/-- The nodes `honest` of a transport follow the protocol for `request` in all
states that satisfy `Inv`: in round 1 node `i` approves `tx i` and commits,
under the index `committed i`, to the nonce it then holds; other calls do not
touch that nonce; in round 2 it signs with it and with `share i`.  The other
nodes answer as they like. -/
structure HonestNodes (Inv : T → Prop) (held : T → ℕ → Option SigningNonce)
    (request : AttestationRequest) (honest : ℕ → Bool)
    (committed : ℕ → ParticipantIndex) (share : ℕ → KeyShare P)
    (tx : ℕ → Transaction) : Prop where
  round1_inv : ∀ transport i, Inv transport →
    Inv (NodeTransport.round1 transport i request).2
  round2_inv : ∀ transport i message commitments, Inv transport →
    Inv (NodeTransport.round2 transport i message commitments).2
  round1_honest : ∀ transport i, Inv transport → honest i = true →
    ∃ nonce after, NodeTransport.round1 transport i request =
        (.ok ⟨.valid (tx i), some nonce.commitment⟩, after) ∧
      nonce.index = committed i ∧ held after i = some nonce
  round1_frame : ∀ transport i j, Inv transport → honest j = true → i ≠ j →
    held (NodeTransport.round1 transport i request).2 j = held transport j
  round2_frame : ∀ transport i j message commitments, Inv transport →
    honest j = true →
    held (NodeTransport.round2 transport i message commitments).2 j =
      held transport j
  round2_honest : ∀ transport i message commitments nonce, Inv transport →
    honest i = true → held transport i = some nonce →
    (NodeTransport.round2 transport i message commitments).1 =
      .ok ⟨honestPartial (share i) nonce message commitments⟩

omit [EdwardsGroup P] [Sha512] in
/-- Node `i` answers round 1 with an error or a rejection. -/
def Declines (Inv : T → Prop) (request : AttestationRequest) (i : ℕ) : Prop :=
  ∀ transport, Inv transport →
    (∃ error, (NodeTransport.round1 transport i request).1 =
      Outcome.err error) ∨
    (∃ reason commitment, (NodeTransport.round1 transport i request).1 =
      .ok ⟨.invalid reason, commitment⟩)

omit [NodeTransport T P] [Sha512] in
/-- The collection after the nodes `picked` have approved. -/
def Collected.extend (collected : Collected P) (tx : ℕ → Transaction)
    (nonce : ℕ → SigningNonce) (picked : List ℕ) : Collected P where
  validResponses := collected.validResponses ++ picked.map fun i =>
    (i, ⟨.valid (tx i), some (nonce i).commitment⟩)
  transaction := collected.transaction.or (picked.head?.map tx)

omit [NodeTransport T P] [Sha512] in
theorem Collected.extend_nil (collected : Collected P) (tx : ℕ → Transaction)
    (nonce : ℕ → SigningNonce) : collected.extend tx nonce [] = collected := by
  simp [Collected.extend]

omit [NodeTransport T P] [Sha512] in
/-- Approvals can be entered one at a time. -/
theorem Collected.extend_cons (collected : Collected P) (tx : ℕ → Transaction)
    (nonce : ℕ → SigningNonce) (i : ℕ) (picked : List ℕ) :
    collected.extend tx nonce (i :: picked) =
      (collected.add i
        ⟨.valid (tx i), some (nonce i).commitment⟩).extend tx nonce picked := by
  rw [Collected.extend, Collected.extend, Collected.add]
  cases collected.transaction <;> simp

omit [NodeTransport T P] [Sha512] in
theorem Collected.extend_append (collected : Collected P)
    (tx : ℕ → Transaction) (nonce : ℕ → SigningNonce) (first rest : List ℕ) :
    collected.extend tx nonce (first ++ rest) =
      (collected.extend tx nonce first).extend tx nonce rest := by
  induction first generalizing collected with
  | nil => rw [List.nil_append, Collected.extend_nil]
  | cons i first ih =>
      rw [List.cons_append, Collected.extend_cons, ih, Collected.extend_cons]

section Empty

variable (tx : ℕ → Transaction) (nonce : ℕ → SigningNonce) (picked : List ℕ)

omit [NodeTransport T P] [Sha512] in
/-- From the empty collection: the answers of the nodes `picked`. -/
theorem Collected.extend_empty :
    Collected.extend (P := P) ⟨[], none⟩ tx nonce picked =
      ⟨picked.map fun j => (j, ⟨.valid (tx j), some (nonce j).commitment⟩),
        picked.head?.map tx⟩ := rfl

omit [NodeTransport T P] [Sha512] in
theorem Collected.nodes_extend_empty :
    (Collected.extend (P := P) ⟨[], none⟩ tx nonce
      picked).validResponses.map Prod.fst = picked := by
  rw [Collected.extend_empty, List.map_map]
  exact List.map_id _

omit [NodeTransport T P] [Sha512] in
theorem Collected.commitments_extend_empty :
    (Collected.extend (P := P) ⟨[], none⟩ tx nonce
      picked).validResponses.mapM (fun entry => unwrap entry.2.commitment) =
      .ok (picked.map fun j => (nonce j).commitment) := by
  rw [Collected.extend_empty, List.mapM_map]
  exact mapM_eq_ok _ _ _ fun _ _ => rfl

omit [NodeTransport T P] [Sha512] in
theorem Collected.length_extend_empty :
    (Collected.extend (P := P) ⟨[], none⟩ tx nonce
      picked).validResponses.length = picked.length :=
  List.length_map _

end Empty

omit [NodeTransport T P] [Sha512] in
/-- Only the nonces of the nodes in question matter. -/
theorem Collected.extend_congr (collected : Collected P)
    (tx : ℕ → Transaction) {nonce nonce' : ℕ → SigningNonce} {picked : List ℕ}
    (hsame : ∀ i ∈ picked, nonce i = nonce' i) :
    collected.extend tx nonce picked = collected.extend tx nonce' picked := by
  have hmap : (picked.map fun i => ((i, ⟨.valid (tx i),
      some (nonce i).commitment⟩) : ℕ × Round1Response P)) =
      picked.map fun i => (i, ⟨.valid (tx i), some (nonce' i).commitment⟩) := by
    apply List.map_congr_left
    intro i hi
    rw [hsame i hi]
  rw [Collected.extend, Collected.extend, hmap]

variable {Inv : T → Prop} {held : T → ℕ → Option SigningNonce}
  {request : AttestationRequest} {honest : ℕ → Bool}
  {committed : ℕ → ParticipantIndex} {share : ℕ → KeyShare P}
  {tx : ℕ → Transaction}

/-- What the honest nodes are described by matters at the honest nodes only. -/
theorem HonestNodes.congr
    (hnodes : HonestNodes Inv held request honest committed share tx)
    {committed' : ℕ → ParticipantIndex} {share' : ℕ → KeyShare P}
    {tx' : ℕ → Transaction}
    (hcommitted : ∀ i, honest i = true → committed i = committed' i)
    (hshare : ∀ i, honest i = true → share i = share' i)
    (htx : ∀ i, honest i = true → tx i = tx' i) :
    HonestNodes Inv held request honest committed' share' tx' where
  round1_inv := hnodes.round1_inv
  round2_inv := hnodes.round2_inv
  round1_honest := by
    intro transport i hinv hi
    rw [← hcommitted i hi, ← htx i hi]
    exact hnodes.round1_honest transport i hinv hi
  round1_frame := hnodes.round1_frame
  round2_frame := hnodes.round2_frame
  round2_honest := by
    intro transport i message commitments nonce hinv hi hheld
    rw [← hshare i hi]
    exact hnodes.round2_honest transport i message commitments nonce hinv hi
      hheld

/-- Honest nodes stay honest when their calls are recorded. -/
theorem HonestNodes.recorded
    (hnodes : HonestNodes Inv held request honest committed share tx) :
    HonestNodes (fun trace : History.Trace T (Event P) => Inv trace.state)
      (fun trace => held trace.state) request honest committed share tx where
  round1_inv trace := hnodes.round1_inv trace.state
  round2_inv trace := hnodes.round2_inv trace.state
  round1_honest := by
    intro trace i hinv hi
    obtain ⟨nonce, after, hround1, hindex, hheld⟩ :=
      hnodes.round1_honest trace.state i hinv hi
    have hanswer := congrArg Prod.fst hround1
    have hstate : (NodeTransport.round1 trace i request).2.state = after :=
      congrArg Prod.snd hround1
    refine ⟨nonce, (NodeTransport.round1 trace i request).2,
      Prod.ext hanswer rfl, hindex, ?_⟩
    rw [hstate, hheld]
  round1_frame trace := hnodes.round1_frame trace.state
  round2_frame trace := hnodes.round2_frame trace.state
  round2_honest trace := hnodes.round2_honest trace.state

omit [EdwardsGroup P] [Sha512] in
theorem Declines.recorded {i : ℕ} (hdeclines : Declines Inv request i) :
    Declines (fun trace : History.Trace T (Event P) => Inv trace.state)
      request i :=
  fun trace => hdeclines trace.state

/-- What is known after round 1 about the nodes that were picked: they hold the
nonces behind the collected commitments. -/
def Holding (held : T → ℕ → Option SigningNonce)
    (committed : ℕ → ParticipantIndex) (nonce : ℕ → SigningNonce)
    (transport : T) (picked : List ℕ) : Prop :=
  ∀ i ∈ picked, (nonce i).index = committed i ∧
    held transport i = some (nonce i)

omit [EdwardsGroup P] [Sha512] in
/-- A node that declines is passed over. -/
theorem collect_cons_declines {threshold i : ℕ} {rest : List ℕ}
    {collected : Collected P} {transport : T}
    (hdeclines : Declines Inv request i) (hinv : Inv transport)
    (hshort : collected.validResponses.length < threshold) :
    collect threshold request (i :: rest) collected transport =
      collect threshold request rest collected
        (NodeTransport.round1 transport i request).2 := by
  rcases hdeclines transport hinv with ⟨error, herror⟩ | ⟨reason, c, hinvalid⟩
  · exact collect_cons_err (Prod.ext herror rfl)
  · rw [collect_cons_ok (Prod.ext hinvalid rfl), if_neg]
    · rfl
    · exact Nat.not_le_of_lt hshort

/-- What is left behind when the nodes `asked` have been asked: the invariant,
the honest ones' nonces, and the nonces of the other honest nodes. -/
structure Scanned (Inv : T → Prop) (held : T → ℕ → Option SigningNonce)
    (honest : ℕ → Bool) (committed : ℕ → ParticipantIndex)
    (nonce : ℕ → SigningNonce) (asked : List ℕ) (transport after : T) :
    Prop where
  inv : Inv after
  holding : Holding held committed nonce after (asked.filter honest)
  kept : ∀ j, honest j = true → j ∉ asked → held after j = held transport j

section Scans

variable {nonce : ℕ → SigningNonce} {i : ℕ} {rest : List ℕ}
  {transport next after : T}

omit [NodeTransport T P] [EdwardsGroup P] [Sha512] in
theorem Scanned.nil (nonce : ℕ → SigningNonce) (hinv : Inv transport) :
    Scanned Inv held honest committed nonce [] transport transport where
  inv := hinv
  holding := by
    intro i hi
    cases hi
  kept _ _ _ := rfl

omit [NodeTransport T P] [EdwardsGroup P] [Sha512] in
/-- A faulty node is asked first. -/
theorem Scanned.cons_faulty
    (hrest : Scanned Inv held honest committed nonce rest next after)
    (hi : honest i = false)
    (hframe : ∀ j, honest j = true → i ≠ j → held next j = held transport j) :
    Scanned Inv held honest committed nonce (i :: rest) transport after where
  inv := hrest.inv
  holding := by
    rw [List.filter_cons_of_neg (by simp [hi])]
    exact hrest.holding
  kept := by
    intro j hj hmem
    rw [List.mem_cons, not_or] at hmem
    rw [hrest.kept j hj hmem.2]
    exact hframe j hj (Ne.symm hmem.1)

omit [NodeTransport T P] [EdwardsGroup P] [Sha512] in
/-- An honest node is asked first. -/
theorem Scanned.cons_honest
    (hrest : Scanned Inv held honest committed nonce rest next after)
    (hfresh : i ∉ rest) (hi : honest i = true)
    (hframe : ∀ j, honest j = true → i ≠ j → held next j = held transport j)
    {own : SigningNonce} (hindex : own.index = committed i)
    (hown : held next i = some own) :
    Scanned Inv held honest committed (Function.update nonce i own)
      (i :: rest) transport after where
  inv := hrest.inv
  holding := by
    rw [List.filter_cons_of_pos hi]
    intro j hj
    rcases List.mem_cons.mp hj with rfl | hmem
    · rw [Function.update_self, hrest.kept j hi hfresh]
      exact ⟨hindex, hown⟩
    · have hne : j ≠ i := by
        rintro rfl
        exact hfresh (List.mem_of_mem_filter hmem)
      rw [Function.update_of_ne hne]
      exact hrest.holding j hmem
  kept := by
    intro j hj hmem
    rw [List.mem_cons, not_or] at hmem
    rw [hrest.kept j hj hmem.2]
    exact hframe j hj (Ne.symm hmem.1)

end Scans

/-- The run lemma of the collection loop below the threshold: it picks the
honest nodes it comes across, in order, and goes on. -/
theorem HonestNodes.collect_scan
    (hnodes : HonestNodes Inv held request honest committed share tx)
    (threshold : ℕ) {pre : List ℕ} (hnodup : pre.Nodup)
    (hdeclines : ∀ i ∈ pre, honest i = false → Declines Inv request i)
    (collected : Collected P) {transport : T} (hinv : Inv transport)
    (hshort : collected.validResponses.length + (pre.filter honest).length <
      threshold) :
    ∃ nonce after,
      (∀ post, collect threshold request (pre ++ post) collected transport =
        collect threshold request post
          (collected.extend tx nonce (pre.filter honest)) after) ∧
      Scanned Inv held honest committed nonce pre transport after := by
  induction pre generalizing collected transport with
  | nil =>
      refine ⟨fun _ => ⟨0, 0, 0⟩, transport, ?_, Scanned.nil _ hinv⟩
      intro post
      rw [List.filter_nil, Collected.extend_nil]
      rfl
  | cons i rest ih =>
      obtain ⟨hfresh, hrest⟩ := List.nodup_cons.mp hnodup
      have hdeclines' : ∀ j ∈ rest, honest j = false →
          Declines Inv request j :=
        fun j hj => hdeclines j (List.mem_cons_of_mem i hj)
      have hinv' := hnodes.round1_inv transport i hinv
      have hframe := hnodes.round1_frame transport i
      cases hhonest : honest i with
      | false =>
          rw [List.filter_cons_of_neg (by simp [hhonest])] at hshort ⊢
          obtain ⟨nonce, after, hcollect, hscan⟩ :=
            ih hrest hdeclines' collected hinv' hshort
          refine ⟨nonce, after, ?_, hscan.cons_faulty hhonest
            fun j hj hij => hframe j hinv hj hij⟩
          intro post
          rw [List.cons_append, collect_cons_declines
            (hdeclines i List.mem_cons_self hhonest) hinv (by omega)]
          exact hcollect post
      | true =>
          rw [List.filter_cons_of_pos hhonest, List.length_cons] at hshort
          rw [List.filter_cons_of_pos hhonest]
          obtain ⟨own, next, hround1, hindex, hown⟩ :=
            hnodes.round1_honest transport i hinv hhonest
          rw [hround1] at hinv' hframe
          have hlength : (collected.add i (P := P) ⟨.valid (tx i),
              some own.commitment⟩).validResponses.length =
              collected.validResponses.length + 1 := by
            simp [Collected.add]
          obtain ⟨nonce, after, hcollect, hscan⟩ :=
            ih hrest hdeclines' (collected.add i ⟨.valid (tx i),
              some own.commitment⟩) hinv' (by rw [hlength]; omega)
          have hother : ∀ j ∈ rest.filter honest,
              Function.update nonce i own j = nonce j := by
            intro j hj
            have hne : j ≠ i := by
              rintro rfl
              exact hfresh (List.mem_of_mem_filter hj)
            exact Function.update_of_ne hne own nonce
          refine ⟨Function.update nonce i own, after, ?_, hscan.cons_honest
            hfresh hhonest (fun j hj hij => hframe j hinv hj hij) hindex hown⟩
          intro post
          rw [List.cons_append, collect_cons_ok hround1, if_neg, hcollect,
            Collected.extend_cons, Collected.extend_congr _ _ hother,
            Function.update_self]
          rw [hlength]
          omega

/-- The loop stops at the honest node that completes the threshold. -/
theorem HonestNodes.collect_enough
    (hnodes : HonestNodes Inv held request honest committed share tx)
    {threshold : ℕ}
    {pre : List ℕ} {i : ℕ} (hnodup : (pre ++ [i]).Nodup)
    (hdeclines : ∀ j ∈ pre, honest j = false → Declines Inv request j)
    (hi : honest i = true) {transport : T} (hinv : Inv transport)
    (hcount : (pre.filter honest).length + 1 = threshold) (post : List ℕ) :
    ∃ nonce after,
      collect threshold request (pre ++ i :: post) ⟨[], none⟩ transport =
        (.ok (Collected.extend ⟨[], none⟩ tx nonce (pre.filter honest ++ [i])),
          after) ∧
      Inv after ∧
      Holding held committed nonce after (pre.filter honest ++ [i]) := by
  obtain ⟨hpre, -, hdisjoint⟩ := List.nodup_append.mp hnodup
  have hfresh : ∀ j ∈ pre, j ≠ i := by
    intro j hj
    exact hdisjoint j hj i (List.mem_singleton_self i)
  obtain ⟨nonce, middle, hcollect, hmiddle, hholding, -⟩ :=
    hnodes.collect_scan threshold hpre hdeclines ⟨[], none⟩ hinv
      (by simp; omega)
  obtain ⟨own, after, hround1, hindex, hown⟩ :=
    hnodes.round1_honest middle i hmiddle hi
  have hafter := hnodes.round1_inv middle i hmiddle
  have hother : ∀ j ∈ pre.filter honest,
      Function.update nonce i own j = nonce j := by
    intro j hj
    exact Function.update_of_ne (hfresh j (List.mem_of_mem_filter hj)) own nonce
  have hadd : Collected.extend ⟨[], none⟩ tx (Function.update nonce i own)
      (pre.filter honest ++ [i]) =
      (Collected.extend (P := P) ⟨[], none⟩ tx nonce (pre.filter honest)).add i
        ⟨.valid (tx i), some own.commitment⟩ := by
    rw [Collected.extend_append, Collected.extend_congr _ _ hother,
      Collected.extend_cons, Collected.extend_nil, Function.update_self]
  refine ⟨Function.update nonce i own, after, ?_, by rwa [hround1] at hafter,
    ?_⟩
  · rw [hcollect, collect_cons_ok hround1, if_pos, hadd]
    simp [Collected.add, Collected.extend]
    omega
  · intro j hj
    rcases List.mem_append.mp hj with hj | hj
    · have hhonest := (List.mem_filter.mp hj).2
      have hne := hfresh j (List.mem_of_mem_filter hj)
      have hkept := hnodes.round1_frame middle i j hmiddle hhonest hne.symm
      rw [hround1] at hkept
      rw [hother j hj, hkept]
      exact hholding j hj
    · rw [List.mem_singleton] at hj
      subst hj
      rw [Function.update_self]
      exact ⟨hindex, hown⟩

/-- The run lemma of the signing loop: nodes that hold their nonces sign. -/
theorem HonestNodes.requestPartials
    (hnodes : HonestNodes Inv held request honest committed share tx)
    (message : Bytes)
    (commitments : List (SigningCommitment P)) {picked : List ℕ}
    (hhonest : ∀ i ∈ picked, honest i = true) {nonce : ℕ → SigningNonce}
    {transport : T} (hinv : Inv transport)
    (hholding : Holding held committed nonce transport picked) :
    ∃ after, CraftSec.requestPartials message commitments picked transport =
      (.ok (picked.map fun i =>
        honestPartial (share i) (nonce i) message commitments), after) := by
  induction picked generalizing transport with
  | nil => exact ⟨transport, rfl⟩
  | cons i rest ih =>
      have hi := hhonest i List.mem_cons_self
      have hround2 := hnodes.round2_honest transport i message commitments
        (nonce i) hinv hi (hholding i List.mem_cons_self).2
      obtain ⟨after, hrest⟩ := ih
        (fun j hj => hhonest j (List.mem_cons_of_mem i hj))
        (hnodes.round2_inv transport i message commitments hinv)
        (fun j hj => by
          have hj' := List.mem_cons_of_mem i hj
          rw [hnodes.round2_frame transport i j message commitments hinv
            (hhonest j hj')]
          exact hholding j hj')
      exact ⟨after, requestPartials_cons_ok (Prod.ext hround2 rfl) hrest⟩

omit [NodeTransport T P] [EdwardsGroup P] [Sha512] in
/-- With enough elements in `range n` that satisfy `p`, the range splits at the
one that makes up the count. -/
theorem exists_split_range (p : ℕ → Bool) {count n : ℕ} (hpos : 1 ≤ count)
    (hcount : count ≤ ((List.range n).filter p).length) :
    ∃ i post, List.range n = List.range i ++ i :: post ∧ p i = true ∧
      ((List.range i).filter p).length + 1 = count ∧
      ((List.range n).filter p).take count = (List.range i).filter p ++ [i] := by
  induction n with
  | zero =>
      simp at hcount
      omega
  | succ n ih =>
      rw [List.range_succ, List.filter_append] at hcount ⊢
      by_cases hearlier : count ≤ ((List.range n).filter p).length
      · obtain ⟨i, post, hrange, hi, hlength, htake⟩ := ih hearlier
        refine ⟨i, post ++ [n], by rw [hrange]; simp, hi, hlength, ?_⟩
        rw [List.take_append_of_le_length hearlier, htake]
      · cases hn : p n with
        | false =>
            simp [hn] at hcount
            omega
        | true =>
            simp only [hn, List.filter_cons_of_pos, List.filter_nil,
              List.length_append, List.length_singleton] at hcount ⊢
            refine ⟨n, [], rfl, hn, by omega, ?_⟩
            apply List.take_of_length_le
            simp
            omega

variable [DecidableEq P] [FloatFormat]

/-- The attestation when every node is honest or declines as long as fewer than
`threshold` honest nodes come before it: the first `threshold` honest nodes
sign the first approved transaction, and the outcome is that of the final
check. -/
theorem HonestNodes.attest_eq
    (hnodes : HonestNodes Inv held request honest committed share tx)
    (client : CraftSecClient T P) (hinv : Inv client.transport)
    (hpositive : 1 ≤ client.threshold.toNat)
    (henough : client.threshold.toNat ≤
      ((List.range client.nodeCount).filter honest).length)
    (hdeclines : ∀ j < client.nodeCount, honest j = false →
      ((List.range j).filter honest).length < client.threshold.toNat →
        Declines Inv request j)
    {picked : List ℕ} (hpicked : ((List.range client.nodeCount).filter
      honest).take client.threshold.toNat = picked) :
    ∃ nonce middle after first,
      let message := (tx first).signingBytes
      let commitments : List (SigningCommitment P) :=
        picked.map fun j => (nonce j).commitment
      let partials := picked.map fun j =>
        honestPartial (share j) (nonce j) message commitments
      picked.head? = some first ∧
      (∀ j ∈ picked, (nonce j).index = committed j) ∧
      collect client.threshold.toNat request (List.range client.nodeCount)
        ⟨[], none⟩ client.transport =
          (.ok (Collected.extend ⟨[], none⟩ tx nonce picked), middle) ∧
      CraftSec.requestPartials message commitments picked middle =
        (.ok partials, after) ∧
      client.attest request =
        ((verify (aggregate message commitments partials)
            client.groupPublicKey message).map fun _ =>
          ⟨tx first, aggregate message commitments partials,
            client.groupPublicKey⟩, after) := by
  have hhonest : ∀ j ∈ picked, honest j = true := by
    intro j hj
    rw [← hpicked] at hj
    exact (List.mem_filter.mp (List.mem_of_mem_take hj)).2
  have hlength : picked.length = client.threshold.toNat := by
    rw [← hpicked, List.length_take, Nat.min_eq_left henough]
  obtain ⟨i, post, hrange, hi, hcount, htake⟩ :=
    exists_split_range honest hpositive henough
  have hnodup : (List.range i ++ [i]).Nodup := by
    rw [← List.range_succ]
    exact List.nodup_range
  have hbound : i < client.nodeCount := by
    have hsize := congrArg List.length hrange
    simp at hsize
    omega
  -- a node before `i` has at most the honest nodes before `i` before it
  have hbefore : ∀ j ∈ List.range i, honest j = false →
      Declines Inv request j := by
    intro j hj hfaulty
    rw [List.mem_range] at hj
    have hfewer := ((List.range_sublist.mpr hj.le).filter honest).length_le
    exact hdeclines j (by omega) hfaulty (by omega)
  obtain ⟨nonce, middle, hcollect, hmiddle, hholding⟩ :=
    hnodes.collect_enough hnodup hbefore hi hinv hcount post
  rw [← htake, hpicked] at hcollect hholding
  obtain ⟨first, hfirst⟩ : ∃ first, picked.head? = some first := by
    cases hcases : picked with
    | nil =>
        rw [hcases, List.length_nil] at hlength
        omega
    | cons first rest => exact ⟨first, rfl⟩
  obtain ⟨after, hpartials⟩ := hnodes.requestPartials (tx first).signingBytes
    (picked.map fun j => (nonce j).commitment) hhonest hmiddle hholding
  have htransaction : (Collected.extend (P := P) ⟨[], none⟩ tx nonce
      picked).transaction = some (tx first) := by
    rw [Collected.extend_empty, hfirst]
    rfl
  refine ⟨nonce, middle, after, first, hfirst, fun j hj => (hholding j hj).1,
    by rw [hrange]; exact hcollect, hpartials, ?_⟩
  rw [CraftSecClient.attest, hrange, hcollect]
  apply finish_eq _ htransaction (Collected.commitments_extend_empty _ _ _)
  · rw [Collected.nodes_extend_empty]
    exact hpartials
  · rw [Collected.length_extend_empty, hlength]

/-- It succeeds when the picked nodes sign like distinct shares under the
client's key and commit under these shares' indices. -/
theorem HonestNodes.attest
    (hnodes : HonestNodes Inv held request honest committed share tx)
    (client : CraftSecClient T P) (hinv : Inv client.transport)
    (hpositive : 1 ≤ client.threshold.toNat)
    (henough : client.threshold.toNat ≤
      ((List.range client.nodeCount).filter honest).length)
    (hdeclines : ∀ j < client.nodeCount, honest j = false →
      ((List.range j).filter honest).length < client.threshold.toNat →
        Declines Inv request j)
    {picked : List ℕ} (hpicked : ((List.range client.nodeCount).filter
      honest).take client.threshold.toNat = picked)
    {F : Scalar[X]} (hdegree : F.degree < client.threshold.toNat)
    (hkey : client.groupPublicKey = basepointMul (F.eval 0))
    {own : ℕ → KeyShare P}
    (hcommitted : ∀ j ∈ picked, committed j = (own j).index)
    (halike : ∀ j ∈ picked, SignsAlike (share j) (own j))
    (hown : ∀ j ∈ picked, (own j).secret = F.eval (own j).index.toScalar ∧
      (own j).groupPublicKey = basepointMul (F.eval 0))
    (hdistinct : (picked.map fun j => (own j).index).Nodup) :
    ∃ attested after collected middle,
      client.attest request = (.ok attested, after) ∧
      some attested.transaction = picked.head?.map tx ∧
      attested.verify = .ok ⟨⟩ ∧
      collect client.threshold.toNat request (List.range client.nodeCount)
        ⟨[], none⟩ client.transport = (.ok collected, middle) ∧
      collected.validResponses.map Prod.fst = picked := by
  obtain ⟨nonce, middle, after, first, hfirst, hindex, hcollect, -, hattest⟩ :=
    hnodes.attest_eq client hinv hpositive henough hdeclines hpicked
  have hlength : picked.length = client.threshold.toNat := by
    rw [← hpicked, List.length_take, Nat.min_eq_left henough]
  let signers : List (Signer P) := picked.map fun j => ⟨own j, nonce j⟩
  have hsigners : HonestSigners F signers := by
    constructor
    all_goals
      intro signer hsigner
      obtain ⟨j, hj, rfl⟩ := List.mem_map.mp hsigner
    · exact (hindex j hj).trans (hcommitted j hj)
    · exact (hown j hj).1
    · exact (hown j hj).2
  have hverify := hsigners.verify_aggregate
    (by rw [List.map_map]; exact hdistinct)
    (by rw [List.length_map, hlength]; exact hdegree) (tx first).signingBytes
  have hpartials : (picked.map fun j => honestPartial (share j) (nonce j)
      (tx first).signingBytes (picked.map fun j => (nonce j).commitment)) =
      picked.map fun j => honestPartial (own j) (nonce j)
        (tx first).signingBytes (picked.map fun j => (nonce j).commitment) := by
    apply List.map_congr_left
    intro j hj
    exact (halike j hj).honestPartial_eq _ _ _
  simp only [signers, List.map_map, ← hkey] at hverify
  refine ⟨⟨tx first, _, client.groupPublicKey⟩, after, _, middle, ?_,
    by rw [hfirst]; rfl, hverify, hcollect,
    Collected.nodes_extend_empty _ _ _⟩
  rw [hattest]
  simp only [Function.comp_def] at hverify ⊢
  rw [hpartials, hverify]
  rfl

/-- When all nodes are honest or decline and too few are honest, the
attestation reports how many approved. -/
theorem HonestNodes.attest_short
    (hnodes : HonestNodes Inv held request honest committed share tx)
    (client : CraftSecClient T P) (hinv : Inv client.transport)
    (hdeclines : ∀ j < client.nodeCount, honest j = false →
      Declines Inv request j)
    (hshort : ((List.range client.nodeCount).filter honest).length <
      client.threshold.toNat) :
    ∃ after, client.attest request =
      (Outcome.err (.insufficientShares
        ((List.range client.nodeCount).filter honest).length
        client.threshold.toNat), after) := by
  obtain ⟨nonce, after, hcollect, -⟩ := hnodes.collect_scan
    client.threshold.toNat List.nodup_range
    (fun j hj => hdeclines j (List.mem_range.mp hj)) ⟨[], none⟩ hinv
    (by simpa using hshort)
  have hwhole := hcollect []
  rw [List.append_nil, collect] at hwhole
  refine ⟨after, ?_⟩
  rw [CraftSecClient.attest, hwhole]
  dsimp only
  rw [finish, Collected.length_extend_empty, if_pos hshort]

end CraftSec
