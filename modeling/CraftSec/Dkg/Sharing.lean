/-
The sharing invariant of the key lifecycle.  A vector of key shares is the
table of one polynomial; dealing, deriving and rotating keep it so.
-/
import CraftSec.Dkg.Pdk
import CraftSec.Dkg.Rotation

open scoped Polynomial

namespace CraftSec

open Interpolation (ofCoeffs)

variable {P : Type} [EdwardsGroup P]

/-- The `i`-th share of the polynomial `F` among `n` participants. -/
noncomputable def shareAt (F : Scalar[X]) (n i : ℕ) : KeyShare P where
  index := UInt32.ofNat i
  secret := F.eval (i : Scalar)
  groupPublicKey := basepointMul (F.eval 0)
  verificationShares := (List.range' 1 n).map fun j =>
    (UInt32.ofNat j, basepointMul (F.eval (j : Scalar)))

noncomputable def shareVector (F : Scalar[X]) (n : ℕ) : List (KeyShare P) :=
  (List.range' 1 n).map (shareAt F n)

/-- `shares` is the table of `F`: the `i`-th element has index `i` and secret
`F(i)`, and all elements agree on the group key and on the verification
shares of everybody. -/
structure IsSharing (F : Scalar[X]) (shares : List (KeyShare P)) : Prop where
  index_eq : ∀ (i : ℕ) (hi : i < shares.length),
    shares[i].index.toNat = i + 1
  secret_eq : ∀ (i : ℕ) (hi : i < shares.length),
    shares[i].secret = F.eval ((i + 1 : ℕ) : Scalar)
  groupPublicKey_eq : ∀ share ∈ shares,
    share.groupPublicKey = basepointMul (F.eval 0)
  verificationShares_eq : ∀ share ∈ shares,
    share.verificationShares = (List.range' 1 shares.length).map fun j =>
      (UInt32.ofNat j, basepointMul (F.eval (j : Scalar)))

/-- A vector of shares is well formed of degree below `t`. -/
def WellFormed (t : ℕ) (shares : List (KeyShare P)) : Prop :=
  ∃ F : Scalar[X], F.degree < t ∧ IsSharing F shares

@[simp]
theorem shareVector_length (F : Scalar[X]) (n : ℕ) :
    (shareVector (P := P) F n).length = n := by
  simp [shareVector]

theorem shareVector_getElem (F : Scalar[X]) (n i : ℕ)
    (hi : i < (shareVector (P := P) F n).length) :
    (shareVector (P := P) F n)[i] = shareAt F n (i + 1) := by
  simp [shareVector, Nat.add_comm]

theorem toNat_ofNat_of_lt {i : ℕ} (hi : i < 2 ^ 32) :
    (UInt32.ofNat i).toNat = i := by
  rw [UInt32.toNat_ofNat', Nat.mod_eq_of_lt hi]

theorem toScalar_ofNat_of_lt {i : ℕ} (hi : i < 2 ^ 32) :
    ParticipantIndex.toScalar (UInt32.ofNat i) = (i : Scalar) := by
  rw [ParticipantIndex.toScalar, toNat_ofNat_of_lt hi]

theorem isSharing_shareVector (F : Scalar[X]) {n : ℕ} (hn : n < 2 ^ 32) :
    IsSharing F (shareVector (P := P) F n) where
  index_eq i hi := by
    rw [shareVector_getElem, shareAt, toNat_ofNat_of_lt]
    rw [shareVector_length] at hi
    omega
  secret_eq i hi := by rw [shareVector_getElem, shareAt]
  groupPublicKey_eq share hshare := by
    simp only [shareVector, List.mem_map] at hshare
    obtain ⟨i, _, rfl⟩ := hshare
    rfl
  verificationShares_eq share hshare := by
    simp only [shareVector, List.mem_map] at hshare
    obtain ⟨i, _, rfl⟩ := hshare
    rw [shareVector_length, shareAt]

/-- An index is a `u32`, so a well-formed vector is short. -/
theorem IsSharing.length_lt {F : Scalar[X]} {shares : List (KeyShare P)}
    (hsharing : IsSharing F shares) : shares.length < 2 ^ 32 := by
  by_contra hlong
  have hlast : shares.length - 1 < shares.length := by omega
  have hindex := hsharing.index_eq (shares.length - 1) hlast
  have hbound := (shares[shares.length - 1]).index.toNat_lt
  omega

/-- The shares of a sharing stand in the order of their indices. -/
theorem IsSharing.map_index {F : Scalar[X]} {shares : List (KeyShare P)}
    (hsharing : IsSharing F shares) :
    (shares.map KeyShare.index).map UInt32.toNat =
      List.range' 1 shares.length := by
  rw [List.map_map]
  apply List.ext_getElem
  · simp
  · intro i hi hi'
    rw [List.getElem_map, List.getElem_range', Function.comp_apply,
      hsharing.index_eq i (by simpa using hi)]
    omega

theorem IsSharing.nodup_index {F : Scalar[X]} {shares : List (KeyShare P)}
    (hsharing : IsSharing F shares) :
    (shares.map KeyShare.index).Nodup := by
  apply List.Nodup.of_map UInt32.toNat
  rw [hsharing.map_index]
  exact List.nodup_range'

/-- A sharing is determined by its polynomial and its length. -/
theorem IsSharing.eq_shareVector {F : Scalar[X]} {shares : List (KeyShare P)}
    (hsharing : IsSharing F shares) :
    shares = shareVector F shares.length := by
  apply List.ext_getElem
  · rw [shareVector_length]
  · intro i hi hi'
    have hmem := List.getElem_mem hi
    have hindex := hsharing.index_eq i hi
    have hsecret := hsharing.secret_eq i hi
    have hkey := hsharing.groupPublicKey_eq _ hmem
    have hverification := hsharing.verificationShares_eq _ hmem
    rw [shareVector_getElem]
    cases hshare : shares[i] with
    | mk index secret groupPublicKey verificationShares =>
        rw [hshare] at hindex hsecret hkey hverification
        simp only at hindex hsecret hkey hverification
        rw [shareAt, hkey, hverification, hsecret, ← hindex]
        simp

/-- A member's secret is the polynomial's value at its own index. -/
theorem IsSharing.secret_eq_eval {F : Scalar[X]} {shares : List (KeyShare P)}
    (hsharing : IsSharing F shares) {share : KeyShare P}
    (hshare : share ∈ shares) :
    share.secret = F.eval share.index.toScalar := by
  obtain ⟨i, hi, rfl⟩ := List.mem_iff_getElem.mp hshare
  rw [hsharing.secret_eq i hi, ParticipantIndex.toScalar,
    hsharing.index_eq i hi]

/-- Shares of a sharing have non-zero indices. -/
theorem IsSharing.toScalar_ne_zero {F : Scalar[X]} {shares : List (KeyShare P)}
    (hsharing : IsSharing F shares) {share : KeyShare P}
    (hshare : share ∈ shares) : share.index.toScalar ≠ 0 := by
  obtain ⟨i, hi, rfl⟩ := List.mem_iff_getElem.mp hshare
  have hindex := hsharing.index_eq i hi
  have hlength := hsharing.length_lt
  intro hzero
  have hcast : ((i + 1 : ℕ) : Scalar) = (0 : ℕ) := by
    rw [← hindex, Nat.cast_zero]
    exact hzero
  have hell := two_pow_32_lt_ell
  have hsame := natCast_scalar_injOn (by omega) ell_prime.pos hcast
  omega

/-- The verification share published for an index is the polynomial's value
there, times the basepoint. -/
theorem IsSharing.verificationShare_eq {F : Scalar[X]}
    {shares : List (KeyShare P)} (hsharing : IsSharing F shares)
    {share : KeyShare P} (hshare : share ∈ shares) {i : ParticipantIndex}
    {point : P} (hentry : (i, point) ∈ share.verificationShares) :
    point = basepointMul (F.eval i.toScalar) := by
  rw [hsharing.verificationShares_eq share hshare, List.mem_map] at hentry
  obtain ⟨j, hj, heq⟩ := hentry
  rw [List.mem_range'_1] at hj
  have hlength := hsharing.length_lt
  cases heq
  rw [toScalar_ofNat_of_lt (by omega)]

/-- The polynomial that a list of dealt polynomials adds up to. -/
noncomputable def combined (polys : List Polynomial) : Scalar[X] :=
  (polys.map fun poly => ofCoeffs poly.coefficients).sum

theorem eval_combined (polys : List Polynomial) (x : Scalar) :
    (combined polys).eval x = (polys.map fun poly => poly.evaluate x).sum := by
  rw [combined, Polynomial.eval_listSum, List.map_map]
  congr 1
  apply List.map_congr_left
  intro poly _
  exact (poly.evaluate_eq x).symm

end CraftSec
