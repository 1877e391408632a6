/-
Rotation of a share vector in another order.  New secrets are built from the
secret at a position and new verification shares from the entry with an index,
so the two agree as long as the secrets stand in the order of the indices.
-/
import CraftSec.Dkg.Reconstruction
import CraftSec.Dkg.Invariant

open scoped Polynomial

namespace CraftSec

variable {P : Type} [EdwardsGroup P] [DecidableEq P]

/-- What the result `newShares` owes to the holders of `oldShares`, whatever
their order: a share for each of them, built from its own old secret and
published under its index, the old group key for `t` of them, and the result of
the vector `sorted`. -/
structure RotatedByParticipant (sorted oldShares : List (KeyShare P)) (t : ℕ)
    (newConfig : ThresholdConfig) (rng : Rng)
    (newShares : List (KeyShare P)) : Prop where
  length_eq : newShares.length = oldShares.length
  own : ∀ old ∈ oldShares, ∃ new ∈ newShares, new.index = old.index ∧
    new.secret = old.secret + (rotationDelta oldShares.length newConfig
      rng).eval old.index.toScalar ∧
    ∀ other ∈ newShares,
      (old.index, basepointMul new.secret) ∈ other.verificationShares
  reconstructs : ∀ chosen : List (KeyShare P),
    (∀ share ∈ chosen, share ∈ newShares) →
    (chosen.map KeyShare.index).Nodup → chosen.length = t →
    ∀ old ∈ oldShares, basepointMul (reconstruct
      (chosen.map KeyShare.entry)) = old.groupPublicKey
  same_set : ∀ sortedShares rng',
    rotateShares sorted newConfig rng = .ok (sortedShares, rng') →
    ∀ share, share ∈ newShares ↔ share ∈ sortedShares

/-- Rotating `oldShares` treats every participant as rotating `sorted` does. -/
def RotatesByParticipant (sorted oldShares : List (KeyShare P)) (t : ℕ)
    (newConfig : ThresholdConfig) (rng : Rng) : Prop :=
  ∃ newShares rng', rotateShares oldShares newConfig rng =
      .ok (newShares, rng') ∧
    RotatedByParticipant sorted oldShares t newConfig rng newShares

/-- What is rotated out of a vector in any order. -/
theorem IsSharing.rotateShares_perm {F : Scalar[X]}
    {sorted oldShares : List (KeyShare P)} (hsharing : IsSharing F sorted)
    (hperm : oldShares.Perm sorted) (hne : sorted ≠ [])
    {newConfig : ThresholdConfig} (ht : 1 ≤ newConfig.threshold.toNat)
    (rng : Rng) :
    CraftSec.rotateShares oldShares newConfig rng =
      .ok ((List.range' 1 oldShares.length).map
          (rotatedAt F (rotationDelta oldShares.length newConfig rng)
            (basepointMul (F.eval 0)) oldShares),
        (rotationPolynomials oldShares.length newConfig rng).2) := by
  have hlength := hperm.length_eq
  apply rotateShares_eq_ok_of_tables F _ _ _ _ ht
  · rw [hlength]
    exact hsharing.length_lt
  · rw [← List.length_pos_iff, hlength]
    exact List.length_pos_iff.mpr hne
  · intro share hshare
    rw [hsharing.verificationShares_eq share (hperm.mem_iff.mp hshare), hlength]
    rfl
  · intro share hshare
    exact hsharing.groupPublicKey_eq share (hperm.mem_iff.mp hshare)

omit [DecidableEq P] in
/-- The result depends on the order of the vector through the secrets alone. -/
theorem rotatedAt_congr (F delta : Scalar[X]) (key : P)
    {left right : List (KeyShare P)}
    (hsecrets : left.map KeyShare.secret = right.map KeyShare.secret) :
    rotatedAt F delta key left = rotatedAt F delta key right := by
  have hlength : left.length = right.length := by
    simpa using congrArg List.length hsecrets
  funext i
  rw [rotatedAt, rotatedAt, secretAt, secretAt, hsecrets, hlength]

omit [EdwardsGroup P] [DecidableEq P] in
theorem secretAt_eq_getElem {shares : List (KeyShare P)} {i : ℕ}
    (hi : i < shares.length) : secretAt shares (i + 1) = shares[i].secret := by
  rw [secretAt, List.getD_eq_getElem?_getD, List.getElem?_map,
    Nat.add_sub_cancel, List.getElem?_eq_getElem hi]
  rfl

omit [DecidableEq P] in
/-- A rotated share is built from the secret that stands at its index. -/
theorem secret_of_mem_rotatedAt {F delta : Scalar[X]} {key : P}
    {oldShares : List (KeyShare P)} (hsize : oldShares.length < 2 ^ 32)
    {new : KeyShare P} (hnew : new ∈ (List.range' 1 oldShares.length).map
      (rotatedAt F delta key oldShares)) :
    new.secret = secretAt oldShares new.index.toNat +
      delta.eval new.index.toScalar := by
  obtain ⟨i, hi, rfl⟩ := List.mem_map.mp hnew
  rw [List.mem_range'_1] at hi
  simp only [rotatedAt]
  rw [ParticipantIndex.toScalar, toNat_ofNat_of_lt (by omega)]

/-- With the secrets in order the result is the one of the sorted vector. -/
theorem IsSharing.rotatedByParticipant {F : Scalar[X]}
    {sorted oldShares : List (KeyShare P)} (hsharing : IsSharing F sorted)
    (hperm : oldShares.Perm sorted) {t : ℕ} (hdegree : F.degree < t)
    {newConfig : ThresholdConfig} (ht : 1 ≤ newConfig.threshold.toNat)
    (rng : Rng) {rng' : Rng} (hsorted : CraftSec.rotateShares sorted newConfig
      rng = .ok (shareVector (F + rotationDelta sorted.length newConfig rng)
        sorted.length, rng')) :
    RotatedByParticipant sorted oldShares (max t newConfig.threshold.toNat)
      newConfig rng (shareVector
        (F + rotationDelta sorted.length newConfig rng) sorted.length) := by
  let delta := rotationDelta sorted.length newConfig rng
  have hnew : IsSharing (F + delta) (shareVector (P := P) (F + delta)
      sorted.length) := isSharing_shareVector _ hsharing.length_lt
  have hzero : (F + delta).eval 0 = F.eval 0 := by
    rw [Polynomial.eval_add, eval_zero_rotationDelta, add_zero]
  constructor
  · rw [shareVector_length, hperm.length_eq]
  · intro old hold
    have hmem := hperm.mem_iff.mp hold
    obtain ⟨i, hi, rfl⟩ := List.mem_iff_getElem.mp hmem
    have hi' : i < (shareVector (P := P) (F + delta) sorted.length).length := by
      rwa [shareVector_length]
    have hindex : (shareVector (P := P) (F + delta) sorted.length)[i].index =
        sorted[i].index := by
      rw [← UInt32.toNat_inj, hnew.index_eq i hi', hsharing.index_eq i hi]
    refine ⟨_, List.getElem_mem hi', hindex, ?_, ?_⟩
    · rw [hnew.secret_eq_eval (List.getElem_mem hi'), hindex,
        hsharing.secret_eq_eval hmem, Polynomial.eval_add, hperm.length_eq]
    · intro other hother
      rw [hnew.verificationShares_eq other hother, shareVector_length,
        hnew.secret_eq i hi']
      refine List.mem_map.mpr ⟨i + 1, ?_, ?_⟩
      · rw [List.mem_range'_1]
        omega
      · rw [← hindex, shareVector_getElem, shareAt]
  · intro chosen hmem hnodup hcount old hold
    have hdelta : (F + delta - F).degree < newConfig.threshold.toNat := by
      rw [add_sub_cancel_left]
      exact degree_rotationDelta_lt _ ht rng
    have hbound := degree_lt_max_of_sub hdegree hdelta
    rw [hnew.reconstruct_eq hmem hnodup (by rwa [hcount]), hzero,
      hsharing.groupPublicKey_eq old (hperm.mem_iff.mp hold)]
  · intro sortedShares rng'' hrotate share
    rw [hsorted] at hrotate
    cases hrotate
    rfl

/-- A permuted vector is rotated by participant exactly when its secrets stand
in the order of the sorted vector. -/
theorem rotates_by_participant_iff {F : Scalar[X]}
    {sorted oldShares : List (KeyShare P)} (hsharing : IsSharing F sorted)
    (hne : sorted ≠ []) (hperm : oldShares.Perm sorted) {t : ℕ}
    (hdegree : F.degree < t) {newConfig : ThresholdConfig}
    (ht : 1 ≤ newConfig.threshold.toNat) (rng : Rng) :
    RotatesByParticipant sorted oldShares (max t newConfig.threshold.toNat)
        newConfig rng ↔
      oldShares.map KeyShare.secret = sorted.map KeyShare.secret := by
  have hlength := hperm.length_eq
  have hrotate := hsharing.rotateShares_perm hperm hne ht rng
  constructor
  · rintro ⟨newShares, rng', hok, hrotated⟩
    rw [hrotate] at hok
    cases hok
    apply List.ext_getElem
    · rw [List.length_map, List.length_map, hlength]
    · intro i hi hi'
      rw [List.length_map] at hi hi'
      -- the holder with index `i + 1`, and what stands at its index now
      obtain ⟨new, hnew, hindex, hsecret, -⟩ := hrotated.own sorted[i]
        (hperm.mem_iff.mpr (List.getElem_mem hi'))
      rw [secret_of_mem_rotatedAt (hlength ▸ hsharing.length_lt) hnew, hindex,
        add_left_inj, hsharing.index_eq i hi', secretAt_eq_getElem hi]
        at hsecret
      rw [List.getElem_map, List.getElem_map, hsecret]
  · intro hsecrets
    have hsorted := hsharing.rotateShares_eq_ok hne ht rng
    have hresult : (List.range' 1 oldShares.length).map
        (rotatedAt F (rotationDelta oldShares.length newConfig rng)
          (basepointMul (F.eval 0)) oldShares) =
        shareVector (F + rotationDelta sorted.length newConfig rng)
          sorted.length := by
      have hsame := hsharing.rotateShares_perm (List.Perm.refl sorted) hne ht rng
      rw [hsorted] at hsame
      rw [rotatedAt_congr F _ _ hsecrets, hlength]
      exact (congrArg Prod.fst (Except.ok.inj hsame)).symm
    rw [hresult] at hrotate
    exact ⟨_, _, hrotate, hsharing.rotatedByParticipant hperm hdegree ht rng
      hsorted⟩

omit [EdwardsGroup P] [DecidableEq P] in
/-- The sorted vector itself. -/
theorem rotates_by_participant_sorted :
    RotatesByParticipant (linearShares 3 3) (linearShares 3 3) 2 ⟨2, 3⟩
      unitRng :=
  have ht : 1 ≤ (⟨2, 3⟩ : ThresholdConfig).threshold.toNat := by decide
  (rotates_by_participant_iff (isSharing_linearShares 3 3) (by decide)
    (List.Perm.refl _) (degree_linearPolynomial_lt 3 3) ht unitRng).mpr rfl

omit [EdwardsGroup P] [DecidableEq P] in
/-- With the first two shares exchanged, participant 1 gets a secret built from
participant 2's, published as if it were built from its own. -/
theorem rotation_exchanges_secrets :
    let exchanged := [linearShare 3 3 2, linearShare 3 3 1, linearShare 3 3 3]
    exchanged.Perm (linearShares 3 3) ∧
      (∃ rng', rotateShares exchanged ⟨2, 3⟩ unitRng =
        .ok ([{ linearShare 3 6 1 with secret := 12 },
          { linearShare 3 6 2 with secret := 12 }, linearShare 3 6 3], rng')) ∧
      ¬ RotatesByParticipant (linearShares 3 3) exchanged 2 ⟨2, 3⟩
        unitRng := by
  intro exchanged
  have hrotate : ∃ rng', rotateShares exchanged ⟨2, 3⟩ unitRng =
      .ok ([{ linearShare 3 6 1 with secret := 12 },
        { linearShare 3 6 2 with secret := 12 }, linearShare 3 6 3], rng') := by
    apply exists_rng_of_shares
    decide +kernel
  refine ⟨List.Perm.swap _ _ _, hrotate, ?_⟩
  rintro ⟨newShares, rng', hok, hrotated⟩
  obtain ⟨rng'', hrotate⟩ := hrotate
  rw [hrotate] at hok
  cases hok
  obtain ⟨new, hnew, hindex, -, hpublished⟩ := hrotated.own (linearShare 3 3 1)
    (by simp [exchanged])
  have hentry := hpublished _ hnew
  simp only [List.mem_cons, List.not_mem_nil, or_false] at hnew
  rcases hnew with rfl | rfl | rfl
  · revert hentry
    decide +kernel
  · revert hindex
    decide
  · revert hindex
    decide

end CraftSec
