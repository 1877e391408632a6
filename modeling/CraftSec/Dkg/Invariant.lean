/-
The sharing invariant across the key lifecycle, and its boundary: a vector
without shares is vacuously well formed, but rotation indexes its first
element.
-/
import CraftSec.Core.Reference
import CraftSec.Dkg.Lifecycle

open scoped Polynomial

namespace CraftSec

open Interpolation (ofCoeffs)

variable {P : Type} [EdwardsGroup P]

/-- `derive_key` returns the table of the derived polynomial, together with
its group key. -/
theorem deriveKey_eq_ok [Sha512] (programCid seed : String)
    {config : ThresholdConfig} (ht : 1 ≤ config.threshold.toNat) :
    deriveKey (P := P) programCid seed config =
      .ok (basepointMul ((ofCoeffs (derivePolynomial programCid seed
          config.threshold.toNat).coefficients).eval 0),
        shareVector (ofCoeffs (derivePolynomial programCid seed
          config.threshold.toNat).coefficients) config.total.toNat) := by
  have hne : (derivePolynomial programCid seed
      config.threshold.toNat).coefficients ≠ [] := by
    rw [← List.length_pos_iff]
    simp only [derivePolynomial, List.length_map, List.length_range]
    omega
  rw [deriveKey]
  simp only [index_commitments_zero _ hne, ok_bind, Polynomial.evaluate_eq]
  rfl

theorem degree_derivePolynomial_lt [Sha512] (programCid seed : String)
    (t : ℕ) :
    (ofCoeffs (derivePolynomial programCid seed t).coefficients).degree < t := by
  have hdegree := Interpolation.degree_ofCoeffs_lt
    (derivePolynomial programCid seed t).coefficients
  simpa [derivePolynomial] using hdegree

/-- All shares carry the group key `key`. -/
def HasGroupKey (key : P) (shares : List (KeyShare P)) : Prop :=
  ∀ share ∈ shares, share.groupPublicKey = key

/-- The group key of a sharing that has shares. -/
theorem IsSharing.key_eq {F : Scalar[X]} {shares : List (KeyShare P)}
    (hsharing : IsSharing F shares) {key : P} (hkey : HasGroupKey key shares)
    {share : KeyShare P} (hshare : share ∈ shares) :
    key = basepointMul (F.eval 0) := by
  rw [← hkey share hshare]
  exact hsharing.groupPublicKey_eq share hshare

theorem IsSharing.hasGroupKey_of_eval_eq {F F' : Scalar[X]}
    {shares newShares : List (KeyShare P)} (hsharing : IsSharing F shares)
    (hnew : IsSharing F' newShares) (hzero : F'.eval 0 = F.eval 0)
    (hne : shares ≠ []) {key : P} (hkey : HasGroupKey key shares) :
    HasGroupKey key newShares := by
  intro share hshare
  rw [hnew.groupPublicKey_eq share hshare, hzero]
  exact (hsharing.key_eq hkey (List.head_mem hne)).symm

variable [DecidableEq P]

/-- Rotate once for each configuration and byte source in turn. -/
def rotateAll (shares : List (KeyShare P)) :
    List (ThresholdConfig × Rng) → Outcome (List (KeyShare P))
  | [] => .ok shares
  | (newConfig, rng) :: rest => do
      let (newShares, _) ← rotateShares shares newConfig rng
      rotateAll newShares rest

/-- The degree bound left by a sequence of rotations. -/
def degreeBound (t : ℕ) (rotations : List (ThresholdConfig × Rng)) : ℕ :=
  rotations.foldl (fun bound rotation =>
    max bound rotation.1.threshold.toNat) t

/-- What rotating a sharing of `F` returns. -/
theorem IsSharing.rotateShares_eq_ok {F : Scalar[X]}
    {shares : List (KeyShare P)} (hsharing : IsSharing F shares)
    (hne : shares ≠ []) {newConfig : ThresholdConfig}
    (ht : 1 ≤ newConfig.threshold.toNat) (rng : Rng) :
    CraftSec.rotateShares shares newConfig rng =
      .ok (shareVector (F + rotationDelta shares.length newConfig rng)
          shares.length,
        (rotationPolynomials shares.length newConfig rng).2) := by
  conv_lhs => rw [hsharing.eq_shareVector]
  exact CraftSec.rotateShares_eq_ok F hsharing.length_lt
    (List.length_pos_iff.mpr hne) ht rng

/-- One rotation of a sharing of `F` is a sharing of a polynomial with the same
value at zero. -/
theorem IsSharing.rotateShares {F : Scalar[X]} {shares : List (KeyShare P)}
    (hsharing : IsSharing F shares) (hne : shares ≠ [])
    {newConfig : ThresholdConfig} (ht : 1 ≤ newConfig.threshold.toNat)
    (rng : Rng) :
    ∃ F' : Scalar[X], ∃ newShares rng',
      CraftSec.rotateShares shares newConfig rng = .ok (newShares, rng') ∧
      newShares.length = shares.length ∧
      IsSharing F' newShares ∧
      F'.eval 0 = F.eval 0 ∧
      (F' - F).degree < newConfig.threshold.toNat := by
  refine ⟨_, _, _, hsharing.rotateShares_eq_ok hne ht rng,
    shareVector_length _ _, isSharing_shareVector _ hsharing.length_lt, ?_, ?_⟩
  · rw [Polynomial.eval_add, eval_zero_rotationDelta, add_zero]
  · rw [add_sub_cancel_left]
    exact degree_rotationDelta_lt _ ht rng

/-- Adding a polynomial of degree below `t'` raises the bound to the larger of
the two. -/
theorem degree_lt_max_of_sub {F F' : Scalar[X]} {t t' : ℕ}
    (hF : F.degree < t) (hsub : (F' - F).degree < t') :
    F'.degree < (max t t' : ℕ) := by
  have hsplit : F' = F + (F' - F) := by ring
  have hleft : F.degree < (max t t' : ℕ) :=
    lt_of_lt_of_le hF (by exact_mod_cast le_max_left t t')
  have hright : (F' - F).degree < (max t t' : ℕ) :=
    lt_of_lt_of_le hsub (by exact_mod_cast le_max_right t t')
  rw [hsplit]
  exact lt_of_le_of_lt (Polynomial.degree_add_le _ _) (max_lt hleft hright)

/-- Any number of rotations keeps a non-empty sharing a sharing of the same
group secret. -/
theorem IsSharing.rotateAll {F : Scalar[X]} {shares : List (KeyShare P)}
    (hsharing : IsSharing F shares) (hne : shares ≠ []) {t : ℕ}
    (hdegree : F.degree < t) (rotations : List (ThresholdConfig × Rng))
    (ht : ∀ rotation ∈ rotations, 1 ≤ rotation.1.threshold.toNat) :
    ∃ F' : Scalar[X], ∃ newShares,
      CraftSec.rotateAll shares rotations = .ok newShares ∧
      newShares.length = shares.length ∧
      IsSharing F' newShares ∧
      F'.eval 0 = F.eval 0 ∧
      F'.degree < degreeBound t rotations := by
  induction rotations generalizing F shares t with
  | nil => exact ⟨F, shares, rfl, rfl, hsharing, rfl, hdegree⟩
  | cons rotation rest ih =>
      obtain ⟨newConfig, rng⟩ := rotation
      obtain ⟨F₁, shares₁, rng', hrotate, hlength, hsharing₁, hzero, hsub⟩ :=
        hsharing.rotateShares hne (ht _ List.mem_cons_self) rng
      have hne₁ : shares₁ ≠ [] := by
        rw [← List.length_pos_iff, hlength]
        exact List.length_pos_iff.mpr hne
      obtain ⟨F₂, shares₂, hrest, hlength₂, hsharing₂, hzero₂, hdegree₂⟩ :=
        ih hsharing₁ hne₁ (degree_lt_max_of_sub hdegree hsub)
          fun rotation hmem => ht rotation (List.mem_cons_of_mem _ hmem)
      refine ⟨F₂, shares₂, ?_, hlength₂.trans hlength, hsharing₂,
        hzero₂.trans hzero, hdegree₂⟩
      rw [CraftSec.rotateAll, hrotate, ok_bind]
      exact hrest

/-- Dealing and deriving start well formed, and rotating any non-empty
well-formed vector succeeds and stays well formed under the same group key. -/
theorem lifecycle_keeps_wellFormed [Sha512] :
    (∀ (config : ThresholdConfig) (rng : Rng), config.Valid →
      ∃ shares rng', runDkg (P := P) config rng = .ok (shares, rng') ∧
        shares.length = config.total.toNat ∧
        WellFormed config.threshold.toNat shares) ∧
    (∀ (programCid seed : String) (config : ThresholdConfig), config.Valid →
      ∃ F : Scalar[X], ∃ shares,
        deriveKey (P := P) programCid seed config =
          .ok (basepointMul (F.eval 0), shares) ∧
        shares.length = config.total.toNat ∧
        F.degree < config.threshold.toNat ∧ IsSharing F shares) ∧
    (∀ (t : ℕ) (shares : List (KeyShare P)) (newConfig : ThresholdConfig)
      (rng : Rng), shares ≠ [] → WellFormed t shares →
      1 ≤ newConfig.threshold.toNat →
      ∃ newShares rng',
        rotateShares shares newConfig rng = .ok (newShares, rng') ∧
        newShares.length = shares.length ∧
        WellFormed (max t newConfig.threshold.toNat) newShares ∧
        ∀ key, HasGroupKey key shares → HasGroupKey key newShares) ∧
    (∀ (t : ℕ) (shares : List (KeyShare P))
      (rotations : List (ThresholdConfig × Rng)), shares ≠ [] →
      WellFormed t shares →
      (∀ rotation ∈ rotations, 1 ≤ rotation.1.threshold.toNat) →
      ∃ newShares, rotateAll shares rotations = .ok newShares ∧
        newShares.length = shares.length ∧
        WellFormed (degreeBound t rotations) newShares ∧
        ∀ key, HasGroupKey key shares → HasGroupKey key newShares) := by
  refine ⟨?_, ?_, ?_, ?_⟩
  · intro config rng hvalid
    refine ⟨_, _, runDkg_eq_ok hvalid.1 rng, shareVector_length _ _,
      combined (dkgPolynomials config rng).1, ?_,
      isSharing_shareVector _ config.total.toNat_lt⟩
    exact degree_combined_lt fun poly hpoly =>
      dkgPolynomials_length_coefficients hvalid.1 hpoly
  · intro programCid seed config hvalid
    exact ⟨_, _, deriveKey_eq_ok programCid seed hvalid.1,
      shareVector_length _ _, degree_derivePolynomial_lt _ _ _,
      isSharing_shareVector _ config.total.toNat_lt⟩
  · rintro t shares newConfig rng hne ⟨F, hdegree, hsharing⟩ ht
    obtain ⟨F', newShares, rng', hrotate, hlength, hnew, hzero, hsub⟩ :=
      hsharing.rotateShares hne ht rng
    exact ⟨newShares, rng', hrotate, hlength,
      ⟨F', degree_lt_max_of_sub hdegree hsub, hnew⟩,
      fun _ hkey => hsharing.hasGroupKey_of_eval_eq hnew hzero hne hkey⟩
  · rintro t shares rotations hne ⟨F, hdegree, hsharing⟩ ht
    obtain ⟨F', newShares, hrotate, hlength, hnew, hzero, hdegree'⟩ :=
      hsharing.rotateAll hne hdegree rotations ht
    exact ⟨newShares, hrotate, hlength, ⟨F', hdegree', hnew⟩,
      fun _ hkey => hsharing.hasGroupKey_of_eval_eq hnew hzero hne hkey⟩

/-- The vector without shares is well formed for every degree, and rotating it
panics on its missing first element. -/
theorem rotateShares_nil_panics :
    WellFormed (P := ReferencePoint) 1 [] ∧
      ThresholdConfig.new 1 1 = .ok ⟨1, 1⟩ ∧
      rotateShares (P := ReferencePoint) [] ⟨1, 1⟩ (fun _ => 0) =
        Outcome.panic := by
  refine ⟨⟨0, ?_, ?_⟩, rfl, rfl⟩
  · rw [Polynomial.degree_zero]
    exact WithBot.bot_lt_coe _
  · constructor <;> simp

/-- A byte source all of whose scalars are one. -/
def unitRng : Rng := fun i => if i % 64 = 0 then 1 else 0

/-- Participant `i`'s share of `a + b * x` among three. -/
def linearShare (a b i : ℕ) : KeyShare ReferencePoint where
  index := UInt32.ofNat i
  secret := ((a + b * i : ℕ) : Scalar)
  groupPublicKey := basepointMul (a : Scalar)
  verificationShares := (List.range' 1 3).map fun j =>
    (UInt32.ofNat j, basepointMul ((a + b * j : ℕ) : Scalar))

def linearShares (a b : ℕ) : List (KeyShare ReferencePoint) :=
  (List.range' 1 3).map (linearShare a b)

/-- The polynomial `a + b * x` behind these shares. -/
noncomputable def linearPolynomial (a b : ℕ) : Scalar[X] :=
  Polynomial.C (b : Scalar) * Polynomial.X + Polynomial.C (a : Scalar)

theorem eval_linearPolynomial (a b i : ℕ) :
    (linearPolynomial a b).eval (i : Scalar) = ((a + b * i : ℕ) : Scalar) := by
  simp [linearPolynomial, add_comm]

theorem eval_zero_linearPolynomial (a b : ℕ) :
    (linearPolynomial a b).eval 0 = (a : Scalar) := by
  simp [linearPolynomial]

theorem degree_linearPolynomial_lt (a b : ℕ) :
    (linearPolynomial a b).degree < (2 : ℕ) :=
  lt_of_le_of_lt Polynomial.degree_linear_le (by norm_num)

theorem isSharing_linearShares (a b : ℕ) :
    IsSharing (linearPolynomial a b) (linearShares a b) := by
  have hvector : linearShares a b = shareVector (linearPolynomial a b) 3 := by
    apply List.map_congr_left
    intro i _
    simp only [linearShare, shareAt, eval_linearPolynomial,
      eval_zero_linearPolynomial]
  rw [hvector]
  exact isSharing_shareVector _ (by norm_num)

theorem wellFormed_linearShares (a b : ℕ) :
    WellFormed 2 (linearShares a b) :=
  ⟨_, degree_linearPolynomial_lt a b, isSharing_linearShares a b⟩

theorem linearShare_mem (a b : ℕ) {i : ℕ} (hpos : 1 ≤ i) (hle : i ≤ 3) :
    linearShare a b i ∈ linearShares a b := by
  apply List.mem_map_of_mem
  rw [List.mem_range'_1]
  omega

theorem hasGroupKey_linearShares (a b : ℕ) :
    HasGroupKey (basepointMul (a : Scalar)) (linearShares a b) := by
  intro share hshare
  obtain ⟨i, _, rfl⟩ := List.mem_map.mp hshare
  rfl

omit [EdwardsGroup P] [DecidableEq P] in
/-- A run whose shares are known ends with some state of the byte source. -/
theorem exists_rng_of_shares {outcome : Outcome (List (KeyShare P) × Rng)}
    {shares : List (KeyShare P)}
    (hshares : outcome.map Prod.fst = .ok shares) :
    ∃ rng', outcome = .ok (shares, rng') := by
  cases outcome with
  | error abort => cases hshares
  | ok result =>
      cases hshares
      exact ⟨result.2, rfl⟩

/-- Three dealers of `1 + x` produce these shares. -/
theorem runDkg_unitRng :
    ∃ rng', runDkg ⟨2, 3⟩ unitRng = .ok (linearShares 3 3, rng') := by
  apply exists_rng_of_shares
  decide +kernel

end CraftSec
