/-
The threshold configurations a caller can get hold of and those that can be
used.  `ThresholdConfig::new` checks its arguments; the derived deserializer
fills the same public fields without the check that the three sharing routines
rely on.
-/
import CraftSec.Core.Receipt
import CraftSec.Dkg.Derivation
import CraftSec.Dkg.Secrecy
import CraftSec.Signing.Epochs

open scoped Polynomial

namespace CraftSec

open Interpolation (ofCoeffs)

/-- The derived `Deserialize` of `ThresholdConfig`. -/
def ThresholdConfig.decode (value : Json) : Option ThresholdConfig := do
  let threshold ← (← value.textField 2 0 "threshold").decodeU32
  let total ← (← value.textField 2 1 "total").decodeU32
  return { threshold, total }

/-- A program specification in the registry. -/
structure ProgramSpec where
  cid : String
  name : String
  version : String
  threshold : ThresholdConfig
deriving Repr, DecidableEq

/-- The derived `Deserialize` of `ProgramSpec`. -/
def ProgramSpec.decode (value : Json) : Option ProgramSpec := do
  let cid ← (← value.textField 4 0 "cid").asStr
  let name ← (← value.textField 4 1 "name").asStr
  let version ← (← value.textField 4 2 "version").asStr
  let threshold ←
    ThresholdConfig.decode (← value.textField 4 3 "threshold")
  return { cid, name, version, threshold }

/-- The ways a caller gets a configuration. -/
inductive Obtainable : ThresholdConfig → Prop where
  | new {threshold total : UInt32} {config : ThresholdConfig} :
      ThresholdConfig.new threshold total = .ok config → Obtainable config
  | json {value : Json} {config : ThresholdConfig} :
      ThresholdConfig.decode value = some config → Obtainable config
  | programSpec {value : Json} {spec : ProgramSpec} :
      ProgramSpec.decode value = some spec → Obtainable spec.threshold

/-- The derived `Serialize` of `ThresholdConfig`, as a value. -/
def ThresholdConfig.toValue (config : ThresholdConfig) : Json :=
  .object
    [("threshold", .number (.posInt config.threshold.toUInt64)),
     ("total", .number (.posInt config.total.toUInt64))]

def ProgramSpec.toValue (spec : ProgramSpec) : Json :=
  .object
    [("cid", .string spec.cid), ("name", .string spec.name),
     ("threshold", spec.threshold.toValue), ("version", .string spec.version)]

theorem decodeU32_toUInt64 (n : UInt32) :
    (Json.number (.posInt n.toUInt64)).decodeU32 = some n := by
  have hlt : n.toUInt64.toNat < 2 ^ 32 := by
    rw [UInt32.toNat_toUInt64]
    exact n.toNat_lt
  rw [Json.decodeU32, if_pos hlt, UInt64.toUInt32, UInt32.toNat_toUInt64]
  simp

/-- Whatever the two numbers are, they are read back. -/
theorem ThresholdConfig.decode_toValue (config : ThresholdConfig) :
    ThresholdConfig.decode config.toValue = some config := by
  have hthreshold : config.toValue.textField 2 0 "threshold" =
      some (.number (.posInt config.threshold.toUInt64)) := rfl
  have htotal : config.toValue.textField 2 1 "total" =
      some (.number (.posInt config.total.toUInt64)) := rfl
  rw [ThresholdConfig.decode, hthreshold, htotal]
  simp only [Option.bind_eq_bind, Option.bind_some, decodeU32_toUInt64]
  rfl

theorem ProgramSpec.decode_toValue (spec : ProgramSpec) :
    ProgramSpec.decode spec.toValue = some spec := by
  have hthreshold : spec.toValue.textField 4 3 "threshold" =
      some spec.threshold.toValue := rfl
  rw [ProgramSpec.decode, hthreshold]
  simp only [Option.bind_eq_bind, Option.bind_some,
    ThresholdConfig.decode_toValue]
  rfl

variable {P : Type} [EdwardsGroup P] [DecidableEq P] [Sha512]

/-- There are `count` shares, and any `count` of their holders sign any message
under the key the shares carry, in any order and with any nonces. -/
def SignableBy (count : ℕ) (shares : List (KeyShare P)) : Prop :=
  1 ≤ count ∧ count ≤ shares.length ∧
  ∀ (signers : List (Signer P)) (message : Bytes),
    (∀ signer ∈ signers, signer.keyShare ∈ shares) →
    (∀ signer ∈ signers, signer.nonce.index = signer.keyShare.index) →
    (signerIndices signers).Nodup → signers.length = count →
    ∃ signature, signSession signers message = .ok signature ∧
      ∀ share ∈ shares,
        verify signature share.groupPublicKey message = .ok ⟨⟩

variable (P) in
/-- What a configuration is for: the three sharing routines return, whatever
their other inputs are, and those that make a key make one that `total`
participants sign with. -/
structure ThresholdConfig.Usable (config : ThresholdConfig) : Prop where
  runDkg : ∀ rng, ∃ (shares : List (KeyShare P)) (rng' : Rng),
    runDkg config rng = .ok (shares, rng') ∧
      shares.length = config.total.toNat ∧
      SignableBy config.total.toNat shares
  deriveKey : ∀ programCid seed, ∃ (key : P) (shares : List (KeyShare P)),
    deriveKey programCid seed config = .ok (key, shares) ∧
      shares.length = config.total.toNat ∧ HasGroupKey key shares ∧
      SignableBy config.total.toNat shares
  rotateShares : ∀ shares : List (KeyShare P), shares ≠ [] →
    WellFormed shares.length shares → ∀ rng,
    ∃ (newShares : List (KeyShare P)) (rng' : Rng),
      rotateShares shares config rng = .ok (newShares, rng') ∧
        newShares.length = shares.length

/-- Rotating `shares` under `config` returns, and `total` participants sign
with the rotated shares. -/
def ThresholdConfig.RotatesUsably (config : ThresholdConfig)
    (shares : List (KeyShare P)) : Prop :=
  ∀ rng, ∃ (newShares : List (KeyShare P)) (rng' : Rng),
    rotateShares shares config rng = .ok (newShares, rng') ∧
      newShares.length = shares.length ∧
      SignableBy config.total.toNat newShares

/-- The holders of a sharing sign once they are more than its degree. -/
theorem IsSharing.signableBy {F : Scalar[X]} {shares : List (KeyShare P)}
    (hsharing : IsSharing F shares) {count : ℕ} (hpos : 1 ≤ count)
    (hcount : count ≤ shares.length) (hdegree : F.degree < count) :
    SignableBy count shares := by
  refine ⟨hpos, hcount, fun signers message hmem hnonce hnodup hsize => ?_⟩
  obtain ⟨signature, hsession, hverify⟩ := hsharing.signs hmem hnonce hnodup
    (by rwa [hsize]) message
  refine ⟨signature, hsession, fun share hshare => ?_⟩
  rw [hsharing.groupPublicKey_eq share hshare]
  exact hverify

theorem shareVector_signableBy {F : Scalar[X]} {n : ℕ} (hn : n < 2 ^ 32)
    {count : ℕ} (hpos : 1 ≤ count) (hcount : count ≤ n)
    (hdegree : F.degree < count) :
    SignableBy count (shareVector (P := P) F n) := by
  apply (isSharing_shareVector F hn).signableBy hpos _ hdegree
  rwa [shareVector_length]

/-- Only then, as long as some challenge for the key is not zero. -/
theorem degree_lt_of_signableBy {F : Scalar[X]} {n : ℕ} (hn : n < 2 ^ 32)
    (hdegree : F.degree ≤ n) {r : Scalar} {message : Bytes}
    (hchallenge : computeChallenge (basepointMul r : P)
      (basepointMul (F.eval 0)) message ≠ 0) {count : ℕ}
    (hsignable : SignableBy count (shareVector (P := P) F n)) :
    F.degree < count := by
  obtain ⟨hpos, hcount, hsign⟩ := hsignable
  have hsharing := isSharing_shareVector (P := P) F hn
  have hne : shareVector (P := P) F n ≠ [] :=
    List.ne_nil_of_length_pos (hpos.trans hcount)
  rw [shareVector_length] at hcount
  apply degree_lt_of_forall_sign hn hdegree hpos hcount hchallenge
  intro signers hmem hnonce hnodup hsize
  obtain ⟨signature, hsession, hverify⟩ :=
    hsign signers message hmem hnonce hnodup hsize
  refine ⟨signature, hsession, ?_⟩
  rw [← hsharing.groupPublicKey_eq _ (List.head_mem hne)]
  exact hverify _ (List.head_mem hne)

/-- A configuration that passed the check of `new` is usable. -/
theorem ThresholdConfig.Valid.usable {config : ThresholdConfig}
    (hvalid : config.Valid) : config.Usable P where
  runDkg rng := by
    refine ⟨_, _, runDkg_eq_ok hvalid.1 rng, shareVector_length _ _, ?_⟩
    apply shareVector_signableBy config.total.toNat_lt
      (hvalid.1.trans hvalid.2) le_rfl
    have hlength : ∀ poly ∈ (dkgPolynomials config rng).1,
        poly.coefficients.length = config.threshold.toNat :=
      fun _ hpoly => dkgPolynomials_length_coefficients hvalid.1 hpoly
    have hdegree := degree_combined_lt hlength
    exact lt_of_lt_of_le hdegree (by exact_mod_cast hvalid.2)
  deriveKey programCid seed := by
    have hsharing := isSharing_shareVector (P := P)
      (ofCoeffs (derivePolynomial programCid seed
        config.threshold.toNat).coefficients) config.total.toNat_lt
    refine ⟨_, _, deriveKey_eq_ok programCid seed hvalid.1,
      shareVector_length _ _, hsharing.groupPublicKey_eq, ?_⟩
    apply shareVector_signableBy config.total.toNat_lt
      (hvalid.1.trans hvalid.2) le_rfl
    exact lt_of_lt_of_le (degree_derivePolynomial_lt programCid seed _)
      (by exact_mod_cast hvalid.2)
  rotateShares shares hne hwell rng := by
    obtain ⟨F, -, hsharing⟩ := hwell
    exact ⟨_, _, hsharing.rotateShares_eq_ok hne hvalid.1 rng,
      shareVector_length _ _⟩

/-- Its rotation is usable where `total` participants could sign before. -/
theorem ThresholdConfig.Valid.rotatesUsably {config : ThresholdConfig}
    (hvalid : config.Valid) {F : Scalar[X]} {shares : List (KeyShare P)}
    (hsharing : IsSharing F shares)
    (hcount : config.total.toNat ≤ shares.length)
    (hdegree : F.degree < config.total.toNat) :
    config.RotatesUsably shares := by
  intro rng
  have hpos : 1 ≤ config.total.toNat := hvalid.1.trans hvalid.2
  refine ⟨_, _, hsharing.rotateShares_eq_ok
    (List.ne_nil_of_length_pos (hpos.trans hcount)) hvalid.1 rng,
    shareVector_length _ _, ?_⟩
  apply shareVector_signableBy hsharing.length_lt hpos hcount
  have hdelta := lt_of_lt_of_le
    (degree_rotationDelta_lt shares.length hvalid.1 rng)
    (show (config.threshold.toNat : WithBot ℕ) ≤ config.total.toNat by
      exact_mod_cast hvalid.2)
  exact lt_of_le_of_lt (Polynomial.degree_add_le _ _) (max_lt hdegree hdelta)

omit [Sha512] in
/-- `t - 1` below zero. -/
theorem runDkg_zero_threshold {config : ThresholdConfig}
    (hthreshold : config.threshold.toNat = 0) (htotal : 1 ≤ config.total.toNat)
    (rng : Rng) : runDkg (P := P) config rng = Outcome.panic := by
  obtain ⟨count, hcount⟩ := Nat.exists_eq_add_of_le' htotal
  rw [runDkg, hthreshold, hcount, List.range'_succ]
  rfl

omit [Sha512] in
theorem rotateShares_zero_threshold {config : ThresholdConfig}
    (hthreshold : config.threshold.toNat = 0) {shares : List (KeyShare P)}
    (hne : shares ≠ []) (rng : Rng) :
    rotateShares shares config rng = Outcome.panic := by
  cases shares with
  | nil => exact absurd rfl hne
  | cons first rest =>
      rw [rotateShares, hthreshold, List.length_cons, List.range'_succ]
      rfl

omit [DecidableEq P] [Sha512] in
/-- Any polynomial of degree below the threshold is one that the ceremony can
end up sharing: the first participant deals it and the others deal zero. -/
theorem exists_rng_combined {config : ThresholdConfig}
    (ht : 1 ≤ config.threshold.toNat) (hn : 1 ≤ config.total.toNat)
    {F : Scalar[X]} (hdegree : F.degree < config.threshold.toNat) :
    ∃ rng, combined (dkgPolynomials config rng).1 = F := by
  obtain ⟨rng, hrng⟩ :=
    exists_rng_dkgPolynomials ht (concentrate fun k => F.coeff k)
  refine ⟨rng, ?_⟩
  rw [hrng]
  exact combined_dkgPolys_concentrate hn hdegree

omit [DecidableEq P] [Sha512] in
/-- A rotation can add any polynomial of degree below the threshold that
vanishes at zero. -/
theorem exists_rng_rotationDelta {n : ℕ} (hn : 1 ≤ n)
    {newConfig : ThresholdConfig} (ht : 1 ≤ newConfig.threshold.toNat)
    {delta : Scalar[X]} (hdegree : delta.degree < newConfig.threshold.toNat)
    (hzero : delta.coeff 0 = 0) :
    ∃ rng, rotationDelta n newConfig rng = delta := by
  obtain ⟨rng, hrng⟩ := exists_rng_rotationPolynomials (n := n) newConfig
    (concentrate fun k => delta.coeff (k + 1))
  refine ⟨rng, ?_⟩
  rw [rotationDelta, hrng]
  exact combined_zeroPolys_concentrate hn ht hdegree hzero

/-- A threshold above the number of participants lets the ceremony share a
polynomial of degree `total`, whose key all participants together miss. -/
theorem exists_rng_not_signableBy {r key : Scalar} {message : Bytes}
    (hchallenge :
      computeChallenge (basepointMul r : P) (basepointMul key) message ≠ 0)
    {config : ThresholdConfig} (hn : 1 ≤ config.total.toNat)
    (hlarge : config.total.toNat < config.threshold.toNat) :
    ∃ rng, ∃ (shares : List (KeyShare P)) (rng' : Rng),
      runDkg config rng = .ok (shares, rng') ∧
        ¬ SignableBy config.total.toNat shares := by
  have ht : 1 ≤ config.threshold.toNat := by omega
  let F : Scalar[X] := .X ^ config.total.toNat + .C key
  have hdegree : F.degree = config.total.toNat :=
    Polynomial.degree_X_pow_add_C hn key
  have hzero : F.eval 0 = key := by
    simp [F, Nat.one_le_iff_ne_zero.mp hn]
  obtain ⟨rng, hrng⟩ := exists_rng_combined ht hn
    (F := F) (by rw [hdegree]; exact_mod_cast hlarge)
  refine ⟨rng, _, _, runDkg_eq_ok ht rng, fun hsignable => ?_⟩
  rw [hrng] at hsignable
  have hlow := degree_lt_of_signableBy config.total.toNat_lt hdegree.le
    (by rwa [hzero]) hsignable
  exact absurd hlow (by rw [hdegree]; exact lt_irrefl _)

/-- A usable configuration would have passed the check of `new`. -/
theorem ThresholdConfig.Usable.valid
    (hhash : ∃ (r key : Scalar) (message : Bytes),
      computeChallenge (basepointMul r : P) (basepointMul key) message ≠ 0)
    {config : ThresholdConfig} (husable : config.Usable P) :
    config.Valid := by
  obtain ⟨r, key, message, hchallenge⟩ := hhash
  obtain ⟨shares, rng', hdkg, -, hn, -⟩ := husable.runDkg fun _ => 0
  have ht : 1 ≤ config.threshold.toNat := by
    by_contra hnone
    rw [runDkg_zero_threshold (by omega) hn] at hdkg
    cases hdkg
  refine ⟨ht, ?_⟩
  by_contra hlarge
  obtain ⟨rng, shares, rng', hdkg, hunsignable⟩ :=
    exists_rng_not_signableBy hchallenge hn (Nat.lt_of_not_le hlarge)
  obtain ⟨shares', rng'', hdkg', -, hsignable⟩ := husable.runDkg rng
  rw [hdkg] at hdkg'
  cases hdkg'
  exact hunsignable hsignable

/-- What a rotation that always leaves a key `total` participants sign with
says about its inputs: adding nothing shows the old degree, adding `x ^ total`
excludes a threshold above `total`. -/
theorem ThresholdConfig.RotatesUsably.bounds {F : Scalar[X]}
    {shares : List (KeyShare P)} (hsharing : IsSharing F shares)
    (hne : shares ≠ []) (hdegree : F.degree < shares.length)
    (hhash : ∃ (r : Scalar) (message : Bytes),
      computeChallenge (basepointMul r : P) (basepointMul (F.eval 0)) message ≠
        0)
    {config : ThresholdConfig} (hrotates : config.RotatesUsably shares) :
    config.Valid ∧ config.total.toNat ≤ shares.length ∧
      F.degree < config.total.toNat := by
  obtain ⟨r, message, hchallenge⟩ := hhash
  have hlength : 1 ≤ shares.length := List.length_pos_iff.mpr hne
  have ht : 1 ≤ config.threshold.toNat := by
    by_contra hnone
    obtain ⟨newShares, rng', hrotate, -⟩ := hrotates fun _ => 0
    rw [rotateShares_zero_threshold (by omega) hne] at hrotate
    cases hrotate
  have hsignable : ∀ delta : Scalar[X], delta.coeff 0 = 0 →
      delta.degree < config.threshold.toNat →
      SignableBy config.total.toNat
        (shareVector (P := P) (F + delta) shares.length) := by
    intro delta hzero hlow
    obtain ⟨rng, hrng⟩ := exists_rng_rotationDelta hlength ht hlow hzero
    obtain ⟨newShares, rng', hrotate, -, hsignable⟩ := hrotates rng
    rw [hsharing.rotateShares_eq_ok hne ht, hrng] at hrotate
    cases hrotate
    exact hsignable
  have hunchanged := hsignable 0 (Polynomial.coeff_zero 0)
    (by rw [Polynomial.degree_zero]; exact WithBot.bot_lt_coe _)
  rw [add_zero] at hunchanged
  have hcount : config.total.toNat ≤ shares.length := by
    have hcount := hunchanged.2.1
    rwa [shareVector_length] at hcount
  have hlow : F.degree < config.total.toNat := degree_lt_of_signableBy
    hsharing.length_lt hdegree.le hchallenge hunchanged
  refine ⟨⟨ht, ?_⟩, hcount, hlow⟩
  by_contra hlarge
  let delta : Scalar[X] := .X ^ config.total.toNat
  have hpos : config.total.toNat ≠ 0 := by
    have hpos := hunchanged.1
    omega
  have hdelta : delta.degree = config.total.toNat := Polynomial.degree_X_pow _
  have hzero : delta.coeff 0 = 0 := by
    rw [Polynomial.coeff_X_pow, if_neg hpos.symm]
  have hkey : (F + delta).eval 0 = F.eval 0 := by
    rw [Polynomial.eval_add, ← Polynomial.coeff_zero_eq_eval_zero delta, hzero,
      add_zero]
  have hsum : (F + delta).degree = config.total.toNat := by
    rw [Polynomial.degree_add_eq_right_of_degree_lt (by rwa [hdelta]), hdelta]
  have hlow' := degree_lt_of_signableBy hsharing.length_lt
    (by rw [hsum]; exact_mod_cast hcount) (by rwa [hkey])
    (hsignable delta hzero (by
      rw [hdelta]
      exact_mod_cast Nat.lt_of_not_le hlarge))
  exact absurd hlow' (by rw [hsum]; exact lt_irrefl _)

/-- Every pair of numbers is obtainable, alone and inside a program
specification.  Of the configurations obtained, those that the check of `new`
would have let through are valid and usable; of the others none is either.
Rotating a vector with one leaves a key that `total` participants sign with
exactly when the configuration is one of those and `total` participants could
sign before. -/
theorem obtainable_config_usable_iff
    (hhash : ∃ (r key : Scalar) (message : Bytes),
      computeChallenge (basepointMul r : P) (basepointMul key) message ≠ 0) :
    (∀ config : ThresholdConfig,
      (∃ value, ThresholdConfig.decode value = some config) ∧
      ∃ value spec, ProgramSpec.decode value = some spec ∧
        spec.threshold = config) ∧
    ∀ config, Obtainable config →
      (config.Valid ↔
        ThresholdConfig.new config.threshold config.total = .ok config) ∧
      (config.Usable P ↔
        ThresholdConfig.new config.threshold config.total = .ok config) ∧
      ∀ (F : Scalar[X]) (shares : List (KeyShare P)), shares ≠ [] →
        IsSharing F shares → F.degree < shares.length →
        (∃ (r : Scalar) (message : Bytes),
          computeChallenge (basepointMul r : P) (basepointMul (F.eval 0))
            message ≠ 0) →
        (config.RotatesUsably shares ↔
          ThresholdConfig.new config.threshold config.total = .ok config ∧
            config.total.toNat ≤ shares.length ∧
            F.degree < config.total.toNat) := by
  refine ⟨fun config => ⟨⟨_, config.decode_toValue⟩, _, ⟨"", "", "", config⟩,
    ProgramSpec.decode_toValue _, rfl⟩, fun config _ => ?_⟩
  have hvalid : config.Valid ↔
      ThresholdConfig.new config.threshold config.total = .ok config := by
    rw [ThresholdConfig.new_eq_ok_iff]
    exact ⟨fun hvalid => ⟨rfl, hvalid⟩, fun hnew => hnew.2⟩
  refine ⟨hvalid, ⟨fun husable => hvalid.mp (husable.valid hhash),
    fun hnew => (hvalid.mpr hnew).usable⟩, ?_⟩
  intro F shares hne hsharing hdegree hhash
  constructor
  · intro hrotates
    obtain ⟨hconfig, hbounds⟩ := hrotates.bounds hsharing hne hdegree hhash
    exact ⟨hvalid.mp hconfig, hbounds⟩
  · rintro ⟨hnew, hcount, hlow⟩
    exact (hvalid.mpr hnew).rotatesUsably hsharing hcount hlow

omit [EdwardsGroup P] [DecidableEq P] [Sha512] in
/-- SHA-512 does not hash everything to zero. -/
theorem exists_challenge_ne_zero_reference :
    letI := sha512Reference
    ∃ (r key : Scalar) (message : Bytes),
      computeChallenge (basepointMul r : ReferencePoint) (basepointMul key)
        message ≠ 0 := by
  let _ := sha512Reference
  exact ⟨0, 0, [], by decide +kernel⟩

omit [EdwardsGroup P] [DecidableEq P] [Sha512] in
/-- The same under the key of `3 + 3 * x`. -/
theorem exists_challenge_ne_zero_linear :
    letI := sha512Reference
    ∃ (r : Scalar) (message : Bytes),
      computeChallenge (basepointMul r : ReferencePoint)
        (basepointMul ((linearPolynomial 3 3).eval 0)) message ≠ 0 := by
  let _ := sha512Reference
  rw [eval_zero_linearPolynomial]
  exact ⟨0, [], by decide +kernel⟩

omit [EdwardsGroup P] [DecidableEq P] [Sha512] in
/-- A 2-of-3 configuration, read from a program specification, and a rotation
of three shares of `3 + 3 * x` under it. -/
theorem obtainable_config_usable_two_of_three :
    letI := sha512Reference
    ThresholdConfig.Usable ReferencePoint ⟨2, 3⟩ ∧
      ThresholdConfig.RotatesUsably ⟨2, 3⟩ (linearShares 3 3) := by
  let _ := sha512Reference
  obtain ⟨-, husable, hrotates⟩ :=
    (obtainable_config_usable_iff exists_challenge_ne_zero_reference).2 ⟨2, 3⟩
      (Obtainable.programSpec
        (ProgramSpec.decode_toValue ⟨"Qm_transfer", "transfer", "1", ⟨2, 3⟩⟩))
  have hdegree : (linearPolynomial 3 3).degree < (3 : ℕ) :=
    lt_trans (degree_linearPolynomial_lt 3 3) (by decide)
  refine ⟨husable.mpr (by decide), ?_⟩
  exact (hrotates (linearPolynomial 3 3) (linearShares 3 3) (by decide)
    (isSharing_linearShares 3 3) hdegree exists_challenge_ne_zero_linear).mpr
    ⟨by decide, by decide, hdegree⟩

omit [EdwardsGroup P] [DecidableEq P] [Sha512] in
/-- Thresholds of zero and of five are read for three participants, and neither
configuration can be used: with the first every sharing routine panics, with the
second the ceremony can end with shares of a key that nobody can sign with.  A
1-of-1 configuration passes the check of `new` and rotates the three shares of
`3 + 3 * x` all the same, which one participant does not sign with. -/
theorem obtainable_config_unusable :
    letI := sha512Reference
    ThresholdConfig.decode
        (.object [("threshold", .number (.posInt 0)),
          ("total", .number (.posInt 3))]) = some ⟨0, 3⟩ ∧
    (∀ rng, runDkg (P := ReferencePoint) ⟨0, 3⟩ rng = Outcome.panic) ∧
    (∀ programCid seed,
      deriveKey (P := ReferencePoint) programCid seed ⟨0, 3⟩ =
        Outcome.panic) ∧
    (∀ rng, rotateShares (linearShares 3 3) ⟨0, 3⟩ rng = Outcome.panic) ∧
    ThresholdConfig.decode
        (.object [("threshold", .number (.posInt 5)),
          ("total", .number (.posInt 3))]) = some ⟨5, 3⟩ ∧
    (∃ rng, ∃ (shares : List (KeyShare ReferencePoint)) (rng' : Rng),
      runDkg ⟨5, 3⟩ rng = .ok (shares, rng') ∧ ¬ SignableBy 3 shares) ∧
    (ThresholdConfig.new 1 1 = .ok ⟨1, 1⟩ ∧
      ¬ ThresholdConfig.RotatesUsably ⟨1, 1⟩ (linearShares 3 3)) ∧
    ¬ ∀ config, Obtainable config →
      config.Valid ∧ config.Usable ReferencePoint := by
  let _ := sha512Reference
  obtain ⟨r, key, message, hchallenge⟩ := exists_challenge_ne_zero_reference
  refine ⟨ThresholdConfig.decode_toValue ⟨0, 3⟩, fun rng => ?_,
    fun programCid seed => ?_, fun rng => ?_,
    ThresholdConfig.decode_toValue ⟨5, 3⟩, ?_, ⟨rfl, fun hrotates => ?_⟩,
    fun hall => ?_⟩
  · exact runDkg_zero_threshold rfl (by decide) rng
  · exact deriveKey_zero programCid seed rfl
  · exact rotateShares_zero_threshold rfl (by decide) rng
  · exact exists_rng_not_signableBy hchallenge (by decide) (by decide)
  · obtain ⟨-, -, hlow⟩ := hrotates.bounds (isSharing_linearShares 3 3)
      (by decide) (lt_trans (degree_linearPolynomial_lt 3 3) (by decide))
      exists_challenge_ne_zero_linear
    have hdegree : (linearPolynomial 3 3).degree = 1 :=
      Polynomial.degree_linear (by decide +kernel)
    rw [hdegree] at hlow
    exact absurd hlow (by decide)
  · obtain ⟨⟨hpos, -⟩, -⟩ := hall ⟨0, 3⟩
      (Obtainable.json (ThresholdConfig.decode_toValue _))
    exact absurd hpos (by decide)

end CraftSec
