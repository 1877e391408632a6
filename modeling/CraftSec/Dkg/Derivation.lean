/-
Program-derived keys: the hashed inputs of different coefficients are
different, and the coefficients do not depend on the threshold.
-/
import CraftSec.Core.Encoding
import CraftSec.Dkg.Invariant
import CraftSec.Dkg.Reconstruction

open scoped Polynomial

namespace CraftSec

open Interpolation (ofCoeffs)

section Inputs

/-- What is hashed for a coefficient of a program's polynomial. -/
def coefficientInput (programCid seed : String) (index : UInt32) : Bytes :=
  derivationInput (inputKeyMaterial programCid seed) (utf8 "coefficient") index

/-- The separator occurs in no string, and what follows the seed has a fixed
width. -/
theorem coefficientInput_injective {programCid programCid' seed seed' : String}
    {index index' : UInt32}
    (heq : coefficientInput programCid seed index =
      coefficientInput programCid' seed' index') :
    programCid = programCid' ∧ seed = seed' ∧ index = index' := by
  have hseparated : PrefixCode.IsPrefixCode fun s : String => utf8 s ++ [0xff] :=
    PrefixCode.IsPrefixCode.of_stop utf8_injective ff_not_mem_utf8
  obtain ⟨hfront, hindex⟩ := List.append_inj' heq (by simp)
  obtain ⟨hkey, -⟩ := List.append_inj' hfront rfl
  rw [List.append_cancel_left_eq] at hkey
  obtain ⟨hprogram, hseed⟩ := hseparated programCid programCid' _ _ hkey
  exact ⟨hprogram, utf8_injective hseed, UInt32.toNat_inj.mp
    (leBytes_injOn index.toNat_lt index'.toNat_lt hindex)⟩

variable [Sha512]

theorem deriveScalar_eq_hashToScalar (ikm info : Bytes) (index : UInt32) :
    deriveScalar ikm info index =
      hashToScalar (derivationInput ikm info index) := rfl

theorem getElem?_derivePolynomial {programCid seed : String} {t k : ℕ}
    {coefficient : Scalar}
    (hcoefficient : (derivePolynomial programCid seed t).coefficients[k]? =
      some coefficient) :
    k < t ∧ coefficient =
      hashToScalar (coefficientInput programCid seed (UInt32.ofNat k)) := by
  rw [derivePolynomial, List.getElem?_map, Option.map_eq_some_iff] at hcoefficient
  obtain ⟨j, hj, rfl⟩ := hcoefficient
  obtain ⟨hlt, rfl⟩ := List.getElem?_eq_some_iff.mp hj
  rw [List.length_range] at hlt
  rw [List.getElem_range, deriveScalar_eq_hashToScalar]
  exact ⟨hlt, rfl⟩

/-- Each coefficient of a derived key is the hash of an input of its own.
Different coefficients, of one key or of two, have different inputs, so where
they are equal these two inputs collide. -/
theorem derivation_inputs_distinct :
    let input (programCid seed : String) (index : UInt32) : Bytes :=
      derivationInput (inputKeyMaterial programCid seed) (utf8 "coefficient")
        index
    (∀ programCid programCid' seed seed' index index',
      input programCid seed index = input programCid' seed' index' →
        programCid = programCid' ∧ seed = seed' ∧ index = index') ∧
    (∀ programCid seed (config : ThresholdConfig) (k : ℕ)
        (coefficient : Scalar),
      (derivePolynomial programCid seed
          config.threshold.toNat).coefficients[k]? = some coefficient →
        k < config.threshold.toNat ∧
          coefficient =
            hashToScalar (input programCid seed (UInt32.ofNat k))) ∧
    ∀ programCid programCid' seed seed' (config config' : ThresholdConfig)
        (k k' : ℕ) (coefficient : Scalar),
      (derivePolynomial programCid seed
          config.threshold.toNat).coefficients[k]? = some coefficient →
      (derivePolynomial programCid' seed'
          config'.threshold.toNat).coefficients[k']? = some coefficient →
      (programCid = programCid' ∧ seed = seed' ∧ k = k') ∨
        (input programCid seed (UInt32.ofNat k) ≠
            input programCid' seed' (UInt32.ofNat k') ∧
          hashToScalar (input programCid seed (UInt32.ofNat k)) =
            hashToScalar (input programCid' seed' (UInt32.ofNat k'))) := by
  intro input
  refine ⟨fun _ _ _ _ _ _ heq => coefficientInput_injective heq,
    fun _ _ _ _ _ hcoefficient => getElem?_derivePolynomial hcoefficient, ?_⟩
  intro programCid programCid' seed seed' config config' k k' coefficient
    hcoefficient hcoefficient'
  obtain ⟨hk, hhash⟩ := getElem?_derivePolynomial hcoefficient
  obtain ⟨hk', hhash'⟩ := getElem?_derivePolynomial hcoefficient'
  by_cases hinput : input programCid seed (UInt32.ofNat k) =
      input programCid' seed' (UInt32.ofNat k')
  · left
    obtain ⟨hprogram, hseed, hindex⟩ := coefficientInput_injective hinput
    have hnat := congrArg UInt32.toNat hindex
    rw [toNat_ofNat_of_lt (lt_trans hk config.threshold.toNat_lt),
      toNat_ofNat_of_lt (lt_trans hk' config'.threshold.toNat_lt)] at hnat
    exact ⟨hprogram, hseed, hnat⟩
  · right
    exact ⟨hinput, hhash.symm.trans hhash'⟩

end Inputs

section Thresholds

variable {P : Type} [EdwardsGroup P] [Sha512]

/-- No set of as many shares of the first key as its threshold asks for
reconstructs the group key of the second one. -/
def ThresholdsIndependent (P : Type) [EdwardsGroup P] (programCid seed : String)
    (config config' : ThresholdConfig) : Prop :=
  ∀ (key key' : P) (shares shares' : List (KeyShare P)),
    deriveKey programCid seed config = .ok (key, shares) →
    deriveKey programCid seed config' = .ok (key', shares') →
    ∀ chosen : List (KeyShare P), (∀ share ∈ chosen, share ∈ shares) →
      (chosen.map KeyShare.index).Nodup →
      chosen.length = config.threshold.toNat →
      basepointMul (reconstruct (chosen.map KeyShare.entry)) ≠ key'

/-- The constant coefficient is the same under every threshold. -/
theorem eval_zero_derivePolynomial (programCid seed : String) {t : ℕ}
    (ht : 1 ≤ t) :
    (ofCoeffs (derivePolynomial programCid seed t).coefficients).eval 0 =
      hashToScalar (coefficientInput programCid seed 0) := by
  obtain ⟨count, rfl⟩ := Nat.exists_eq_succ_of_ne_zero (by omega : t ≠ 0)
  rw [derivePolynomial, List.range_succ_eq_map, List.map_cons,
    Interpolation.eval_zero_ofCoeffs_cons]
  rfl

theorem deriveKey_zero (programCid seed : String) {config : ThresholdConfig}
    (ht : config.threshold.toNat = 0) :
    deriveKey (P := P) programCid seed config = Outcome.panic := by
  rw [deriveKey, ht]
  rfl

/-- The first shares, as many as the threshold asks for, find the key of every
other threshold. -/
theorem reconstruct_undercuts (programCid seed : String)
    {config config' : ThresholdConfig} (hvalid : config.Valid)
    (ht' : 1 ≤ config'.threshold.toNat) {chosen : List (KeyShare P)}
    {key key' : P} {shares shares' : List (KeyShare P)}
    (hkey : deriveKey programCid seed config = .ok (key, shares))
    (hkey' : deriveKey programCid seed config' = .ok (key', shares'))
    (hmem : ∀ share ∈ chosen, share ∈ shares)
    (hnodup : (chosen.map KeyShare.index).Nodup)
    (hcount : chosen.length = config.threshold.toNat) :
    basepointMul (reconstruct (chosen.map KeyShare.entry)) = key' := by
  rw [deriveKey_eq_ok programCid seed hvalid.1] at hkey
  rw [deriveKey_eq_ok programCid seed ht'] at hkey'
  cases hkey
  cases hkey'
  have hsharing := isSharing_shareVector (P := P)
    (ofCoeffs (derivePolynomial programCid seed
      config.threshold.toNat).coefficients) config.total.toNat_lt
  rw [hsharing.reconstruct_eq hmem hnodup
      (by rw [hcount]; exact degree_derivePolynomial_lt programCid seed _),
    eval_zero_derivePolynomial programCid seed hvalid.1,
    eval_zero_derivePolynomial programCid seed ht']

/-- The keys of two thresholds are independent exactly when the lower one is
not usable at all. -/
theorem thresholds_independent_iff (programCid seed : String)
    {config config' : ThresholdConfig}
    (hlower : config.threshold < config'.threshold) :
    ThresholdsIndependent P programCid seed config config' ↔
      ¬ config.Valid := by
  have ht' : 1 ≤ config'.threshold.toNat :=
    Nat.one_le_of_lt (UInt32.lt_iff_toNat_lt.mp hlower)
  constructor
  · intro hindependent hvalid
    have hkey := deriveKey_eq_ok (P := P) programCid seed hvalid.1
    have hkey' := deriveKey_eq_ok (P := P) programCid seed ht'
    have hsharing := isSharing_shareVector (P := P)
      (ofCoeffs (derivePolynomial programCid seed
        config.threshold.toNat).coefficients) config.total.toNat_lt
    -- the first shares of the lower threshold
    have hmem : ∀ share ∈ (shareVector (P := P)
        (ofCoeffs (derivePolynomial programCid seed
          config.threshold.toNat).coefficients) config.total.toNat).take
        config.threshold.toNat, share ∈ shareVector _ _ :=
      fun share hshare => List.mem_of_mem_take hshare
    have hnodup := hsharing.nodup_index.sublist
      ((List.take_sublist config.threshold.toNat _).map KeyShare.index)
    have hcount : ((shareVector (P := P)
        (ofCoeffs (derivePolynomial programCid seed
          config.threshold.toNat).coefficients) config.total.toNat).take
        config.threshold.toNat).length = config.threshold.toNat := by
      rw [List.length_take, shareVector_length]
      exact Nat.min_eq_left hvalid.2
    exact hindependent _ _ _ _ hkey hkey' _ hmem hnodup hcount
      (reconstruct_undercuts programCid seed hvalid ht' hkey hkey' hmem hnodup
        hcount)
  · intro hinvalid key key' shares shares' hkey _ chosen hmem hnodup hcount
    rcases Nat.eq_zero_or_pos config.threshold.toNat with hzero | hpositive
    · rw [deriveKey_zero programCid seed hzero] at hkey
      cases hkey
    · rw [deriveKey_eq_ok programCid seed hpositive] at hkey
      cases hkey
      have hchosen : chosen.Nodup := hnodup.of_map KeyShare.index
      have hle := (List.subperm_of_subset hchosen hmem).length_le
      rw [hcount, shareVector_length] at hle
      exact absurd ⟨hpositive, hle⟩ hinvalid

omit [EdwardsGroup P] [Sha512] in
/-- Two shares of a 2-of-3 key find the 5-of-7 key of the same program. -/
theorem high_threshold_undercut :
    letI := sha512Reference
    ∃ (key key' : ReferencePoint) (shares shares' : List (KeyShare _)),
      deriveKey "Qm_transfer" "main" ⟨2, 3⟩ = .ok (key, shares) ∧
        deriveKey "Qm_transfer" "main" ⟨5, 7⟩ = .ok (key', shares') ∧
        ∃ first second, first ∈ shares ∧ second ∈ shares ∧
          first.index = 1 ∧ second.index = 2 ∧
          basepointMul (reconstruct [first.entry, second.entry]) = key' := by
  let _ := sha512Reference
  have hvalid : ThresholdConfig.Valid ⟨2, 3⟩ := ⟨by decide, by decide⟩
  have ht' : 1 ≤ (⟨5, 7⟩ : ThresholdConfig).threshold.toNat := by decide
  have hkey := deriveKey_eq_ok (P := ReferencePoint) "Qm_transfer" "main"
    hvalid.1
  have hkey' := deriveKey_eq_ok (P := ReferencePoint) "Qm_transfer" "main" ht'
  have hmem : ∀ i, 1 ≤ i → i ≤ 3 → shareAt (P := ReferencePoint) (ofCoeffs
      (derivePolynomial "Qm_transfer" "main" 2).coefficients) 3 i ∈
      shareVector (ofCoeffs
        (derivePolynomial "Qm_transfer" "main" 2).coefficients) 3 := by
    intro i hpos hle
    apply List.mem_map_of_mem
    rw [List.mem_range'_1]
    omega
  refine ⟨_, _, _, _, hkey, hkey', _, _, hmem 1 (by decide) (by decide),
    hmem 2 (by decide) (by decide), rfl, rfl, ?_⟩
  change basepointMul (reconstruct ([_, _].map KeyShare.entry)) = _
  apply reconstruct_undercuts "Qm_transfer" "main" hvalid
    ht' hkey hkey' ?_ ?_ rfl
  · intro share hshare
    rcases List.mem_pair.mp hshare with rfl | rfl
    · exact hmem 1 (by decide) (by decide)
    · exact hmem 2 (by decide) (by decide)
  · decide

omit [EdwardsGroup P] [Sha512] in
/-- The keys of 2-of-3 and 3-of-5 are not independent. -/
theorem thresholds_independent_two_of_three :
    letI := sha512Reference
    ¬ ThresholdsIndependent ReferencePoint "Qm_transfer" "main" ⟨2, 3⟩
      ⟨3, 5⟩ := by
  let _ := sha512Reference
  rw [thresholds_independent_iff "Qm_transfer" "main"
    (by decide : (2 : UInt32) < 3), not_not]
  exact ⟨by decide, by decide⟩

end Thresholds

end CraftSec
