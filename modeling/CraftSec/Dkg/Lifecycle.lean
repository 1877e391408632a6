/-
The three ways key shares come about.  Each routine is run on the polynomials
its generator draws, and each result is the table of a polynomial: dealing
adds the drawn polynomials up, rotation adds them to the old one.
-/
import CraftSec.Dkg.Sharing

open scoped Polynomial

namespace CraftSec

open Interpolation (ofCoeffs)

variable {P : Type} [EdwardsGroup P]

/-- The contributions of `n` participants who dealt `polys`. -/
def dealt (n : ℕ) (polys : List Polynomial) : List (DkgContribution P) :=
  List.zipWith (DkgContribution.ofPolynomial n) (List.range' 1 n) polys

theorem exists_of_mem_dealt {n : ℕ} {polys : List Polynomial}
    {contribution : DkgContribution P}
    (hmem : contribution ∈ dealt n polys) :
    ∃ i, ∃ poly ∈ polys, contribution = .ofPolynomial n i poly := by
  rw [dealt, ← List.map_uncurry_zip_eq_zipWith, List.mem_map] at hmem
  obtain ⟨⟨i, poly⟩, hzip, rfl⟩ := hmem
  exact ⟨i, poly, (List.of_mem_zip hzip).2, rfl⟩

/-- What is computed from a contribution without its index is computed from
the polynomial. -/
theorem map_dealt {α : Type} {n : ℕ} {polys : List Polynomial}
    (hlength : polys.length = n) (g : DkgContribution P → α)
    (g' : Polynomial → α)
    (hg : ∀ i, ∀ poly ∈ polys, g (.ofPolynomial n i poly) = g' poly) :
    (dealt n polys).map g = polys.map g' := by
  apply List.ext_getElem
  · simp [dealt, hlength]
  · intro k hk hk'
    simp only [dealt, List.getElem_map, List.getElem_zipWith]
    exact hg _ _ (List.getElem_mem _)

/-- The same for a computation that can fail but does not. -/
theorem mapM_dealt {α : Type} {n : ℕ} {polys : List Polynomial}
    (hlength : polys.length = n) (f : DkgContribution P → Outcome α)
    (g' : Polynomial → α)
    (hf : ∀ i, ∀ poly ∈ polys, f (.ofPolynomial n i poly) = .ok (g' poly)) :
    (dealt n polys).mapM f = .ok (polys.map g') := by
  have hmap := map_dealt hlength f (fun poly => pure (g' poly)) hf
  calc (dealt n polys).mapM f = ((dealt n polys).map f).mapM id := by
        rw [List.mapM_map]
        rfl
    _ = polys.mapM fun poly => (pure (g' poly) : Outcome α) := by
        rw [hmap, List.mapM_map]
        rfl
    _ = .ok (polys.map g') := List.mapM_pure

theorem index_shares_ofPolynomial (n i : ℕ) (poly : Polynomial) {j : ℕ}
    (hpos : 1 ≤ j) (hle : j ≤ n) :
    index (DkgContribution.ofPolynomial (P := P) n i poly).shares (j - 1) =
      .ok (UInt32.ofNat j, poly.evaluate (j : Scalar)) := by
  apply index_eq_ok_of_getElem?
  have hlt : j - 1 < n := by omega
  have hj : 1 + (j - 1) = j := by omega
  simp [DkgContribution.ofPolynomial, hlt, hj]

theorem index_commitments_zero (poly : Polynomial)
    (hne : poly.coefficients ≠ []) :
    index (poly.commitments (P := P)) 0 =
      .ok (basepointMul (poly.evaluate 0)) := by
  cases hcoefficients : poly.coefficients with
  | nil => exact absurd hcoefficients hne
  | cons coefficient rest =>
      apply index_eq_ok_of_getElem?
      rw [poly.evaluate_eq, Polynomial.commitments, hcoefficients]
      simp

theorem sumShares_dealt {n : ℕ} {polys : List Polynomial}
    (hlength : polys.length = n) {i : ℕ} (hpos : 1 ≤ i) (hle : i ≤ n) :
    sumShares (dealt (P := P) n polys) i =
      .ok ((combined polys).eval (i : Scalar)) := by
  have hreceived := mapM_dealt (P := P) hlength
    (fun contribution => index contribution.shares (i - 1))
    (fun poly => (UInt32.ofNat i, poly.evaluate (i : Scalar)))
    fun k poly _ => index_shares_ofPolynomial n k poly hpos hle
  rw [sumShares, hreceived, eval_combined]
  simp only [bind, Except.bind, pure, Except.pure, List.map_map]
  rfl

theorem sum_constants_dealt {n : ℕ} {polys : List Polynomial}
    (hlength : polys.length = n)
    (hne : ∀ poly ∈ polys, poly.coefficients ≠ []) :
    ∃ constants, (dealt (P := P) n polys).mapM
        (fun contribution => index contribution.commitments 0) =
          .ok constants ∧
      constants.sum = basepointMul ((combined polys).eval 0) := by
  refine ⟨polys.map fun poly => basepointMul (poly.evaluate 0), ?_, ?_⟩
  · apply mapM_dealt hlength
    intro k poly hpoly
    exact index_commitments_zero poly (hne poly hpoly)
  · rw [eval_combined, basepointMul_sum]

/-- Summing the commitment polynomials at `j` gives the verification share of
participant `j`. -/
theorem sum_evaluateCommitments_dealt {n : ℕ} {polys : List Polynomial}
    (hlength : polys.length = n) (x : Scalar) :
    ((dealt (P := P) n polys).map fun contribution =>
      evaluateCommitments contribution.commitments x).sum =
      basepointMul ((combined polys).eval x) := by
  rw [map_dealt hlength _ (fun poly => basepointMul (poly.evaluate x))
    (fun _ poly _ => evaluateCommitments_commitments poly x), eval_combined,
    basepointMul_sum]

/-- The polynomials `run_dkg` draws. -/
def dkgPolynomials (config : ThresholdConfig) (rng : Rng) :
    List Polynomial × Rng :=
  drawPolynomials (Polynomial.randomFull (config.threshold.toNat - 1))
    config.total.toNat rng

/-- The polynomials `rotate_shares` draws for `n` old shares. -/
def rotationPolynomials (n : ℕ) (newConfig : ThresholdConfig) (rng : Rng) :
    List Polynomial × Rng :=
  drawPolynomials (Polynomial.random (newConfig.threshold.toNat - 1) 0) n rng

theorem dkgPolynomials_length_coefficients {config : ThresholdConfig}
    (ht : 1 ≤ config.threshold.toNat) {rng : Rng} {poly : Polynomial}
    (hpoly : poly ∈ (dkgPolynomials config rng).1) :
    poly.coefficients.length = config.threshold.toNat := by
  obtain ⟨rng', rfl⟩ := exists_draw_of_mem_drawPolynomials _ _ _ hpoly
  rw [Polynomial.randomFull_length]
  omega

theorem rotationPolynomials_length_coefficients {n : ℕ}
    {newConfig : ThresholdConfig} (ht : 1 ≤ newConfig.threshold.toNat)
    {rng : Rng} {poly : Polynomial}
    (hpoly : poly ∈ (rotationPolynomials n newConfig rng).1) :
    poly.coefficients.length = newConfig.threshold.toNat := by
  obtain ⟨rng', rfl⟩ := exists_draw_of_mem_drawPolynomials _ _ _ hpoly
  rw [Polynomial.random_length]
  omega

/-- Rotation polynomials vanish at zero. -/
theorem rotationPolynomials_evaluate_zero {n : ℕ}
    {newConfig : ThresholdConfig} {rng : Rng} {poly : Polynomial}
    (hpoly : poly ∈ (rotationPolynomials n newConfig rng).1) :
    poly.evaluate 0 = 0 := by
  obtain ⟨rng', rfl⟩ := exists_draw_of_mem_drawPolynomials _ _ _ hpoly
  rw [Polynomial.evaluate_eq]
  exact Interpolation.eval_zero_ofCoeffs_cons 0 _

theorem degree_combined_lt {polys : List Polynomial} {t : ℕ}
    (hlength : ∀ poly ∈ polys, poly.coefficients.length = t) :
    (combined polys).degree < t := by
  apply Interpolation.degree_sum_lt
  intro summand hsummand
  rw [List.mem_map] at hsummand
  obtain ⟨poly, hpoly, rfl⟩ := hsummand
  rw [← hlength poly hpoly]
  exact Interpolation.degree_ofCoeffs_lt _

/-- The sum of the polynomials that `rotate_shares` draws for `n` old shares. -/
noncomputable def rotationDelta (n : ℕ) (newConfig : ThresholdConfig)
    (rng : Rng) : Scalar[X] :=
  combined (rotationPolynomials n newConfig rng).1

theorem degree_rotationDelta_lt (n : ℕ) {newConfig : ThresholdConfig}
    (ht : 1 ≤ newConfig.threshold.toNat) (rng : Rng) :
    (rotationDelta n newConfig rng).degree < newConfig.threshold.toNat :=
  degree_combined_lt fun _ hpoly =>
    rotationPolynomials_length_coefficients ht hpoly

theorem eval_zero_rotationDelta (n : ℕ) (newConfig : ThresholdConfig)
    (rng : Rng) : (rotationDelta n newConfig rng).eval 0 = 0 := by
  rw [rotationDelta, eval_combined]
  apply List.sum_eq_zero
  intro value hvalue
  rw [List.mem_map] at hvalue
  obtain ⟨poly, hpoly, rfl⟩ := hvalue
  exact rotationPolynomials_evaluate_zero hpoly

theorem combineContributions_dealt {n : ℕ} {polys : List Polynomial}
    (hlength : polys.length = n)
    (hne : ∀ poly ∈ polys, poly.coefficients ≠ []) :
    combineContributions n (dealt (P := P) n polys) =
      .ok (shareVector (combined polys) n) := by
  obtain ⟨constants, hconstants, hkey⟩ :=
    sum_constants_dealt (P := P) hlength hne
  rw [combineContributions, hconstants, ok_bind]
  apply mapM_eq_ok
  intro i hi
  rw [List.mem_range'_1] at hi
  rw [sumShares_dealt hlength hi.1 (by omega), ok_bind, hkey]
  simp only [sum_evaluateCommitments_dealt hlength]
  rfl

/-- The verification shares of `F` among `n` participants. -/
noncomputable def verificationTable (F : Scalar[X]) (n : ℕ) :
    List (ParticipantIndex × P) :=
  (List.range' 1 n).map fun j =>
    (UInt32.ofNat j, basepointMul (F.eval (j : Scalar)))

/-- Looking up the verification share of participant `j` by its index. -/
theorem find?_verificationTable (F : Scalar[X]) {n j : ℕ} (hn : n < 2 ^ 32)
    (hpos : 1 ≤ j) (hle : j ≤ n) :
    (verificationTable (P := P) F n).find?
        (fun entry => entry.1 == UInt32.ofNat j) =
      some (UInt32.ofNat j, basepointMul (F.eval (j : Scalar))) := by
  have hfind : (List.range' 1 n).find?
      (fun k => UInt32.ofNat k == UInt32.ofNat j) = some j := by
    rw [List.find?_range'_eq_some]
    refine ⟨beq_self_eq_true _, ?_, ?_⟩
    · rw [List.mem_range'_1]
      omega
    · intro k hk hlt
      have hne : UInt32.ofNat k ≠ UInt32.ofNat j := by
        intro heq
        have hnat := congrArg UInt32.toNat heq
        rw [toNat_ofNat_of_lt (by omega), toNat_ofNat_of_lt (by omega)] at hnat
        omega
      simpa using hne
  simp only [verificationTable, List.find?_map, Function.comp_def, hfind,
    Option.map_some]

/-- The secret at the position of participant `i`. -/
def secretAt (oldShares : List (KeyShare P)) (i : ℕ) : Scalar :=
  (oldShares.map KeyShare.secret).getD (i - 1) 0

theorem secretAt_shareVector (F : Scalar[X]) {n i : ℕ} (hpos : 1 ≤ i)
    (hle : i ≤ n) :
    secretAt (shareVector (P := P) F n) i = F.eval (i : Scalar) := by
  have hlt : i - 1 < n := by omega
  have hi : 1 + (i - 1) = i := by omega
  simp [secretAt, shareVector, shareAt, hlt, hi]

/-- What rotation leaves at position `i` of a vector whose shares all carry the
verification shares of `F`. -/
noncomputable def rotatedAt (F delta : Scalar[X]) (key : P)
    (oldShares : List (KeyShare P)) (i : ℕ) : KeyShare P where
  index := UInt32.ofNat i
  secret := secretAt oldShares i + delta.eval (i : Scalar)
  groupPublicKey := key
  verificationShares := verificationTable (F + delta) oldShares.length

/-- Secrets are taken by position, verification shares by index. -/
theorem combineRotation_eq_ok (F : Scalar[X]) {n : ℕ} (hn : n < 2 ^ 32)
    {oldShares : List (KeyShare P)} (hcount : oldShares.length = n)
    (htable : ∀ share ∈ oldShares,
      share.verificationShares = verificationTable F n) (key : P)
    {polys : List Polynomial} (hlength : polys.length = n) :
    combineRotation oldShares key (dealt n polys) =
      .ok ((List.range' 1 n).map
        (rotatedAt F (combined polys) key oldShares)) := by
  have hindex : ∀ i, 1 ≤ i → i ≤ n → ∃ old ∈ oldShares,
      index oldShares (i - 1) = .ok old ∧ old.secret = secretAt oldShares i := by
    intro i hpos hle
    have hlt : i - 1 < oldShares.length := by omega
    refine ⟨_, List.getElem_mem hlt,
      index_eq_ok_of_getElem? (List.getElem?_eq_getElem hlt), ?_⟩
    rw [secretAt, List.getD_eq_getElem?_getD, List.getElem?_map,
      List.getElem?_eq_getElem hlt]
    rfl
  rw [combineRotation, hcount]
  apply mapM_eq_ok
  intro i hi
  rw [List.mem_range'_1] at hi
  have hverification : (List.range' 1 n).mapM (fun j => do
      let oldHolder ← index oldShares (j - 1)
      let oldVk ← unwrap
        (oldHolder.verificationShares.find?
          fun (entry : ParticipantIndex × P) => entry.1 == UInt32.ofNat j)
      let deltaJ ← sumShares (dealt (P := P) n polys) j
      return (UInt32.ofNat j, oldVk.2 + basepointMul deltaJ)) =
      .ok (verificationTable (F + combined polys) n) := by
    apply mapM_eq_ok
    intro j hj
    rw [List.mem_range'_1] at hj
    obtain ⟨old, hmem, hold, -⟩ := hindex j hj.1 (by omega)
    rw [hold, ok_bind, htable old hmem,
      find?_verificationTable F hn hj.1 (by omega), unwrap_some, ok_bind,
      sumShares_dealt hlength hj.1 (by omega), ok_bind, ← basepointMul_add,
      ← Polynomial.eval_add]
    rfl
  obtain ⟨old, -, hold, hsecret⟩ := hindex i hi.1 (by omega)
  rw [hold, ok_bind, sumShares_dealt hlength hi.1 (by omega), ok_bind,
    hverification, ok_bind, hsecret, rotatedAt, hcount]
  rfl

variable [DecidableEq P]

/-- Honest shares always verify, so the ceremony's checks never reject. -/
theorem verifyContributions_dealt {n : ℕ} (hn : n < 2 ^ 32)
    (polys : List Polynomial) :
    verifyContributions n (dealt (P := P) n polys) = .ok ⟨⟩ := by
  apply forM_eq_ok
  intro receiverIdx hreceiver
  rw [List.mem_range'_1] at hreceiver
  apply forM_eq_ok
  intro contribution hmem
  obtain ⟨i, poly, _, rfl⟩ := exists_of_mem_dealt hmem
  rw [index_shares_ofPolynomial n i poly hreceiver.1 (by omega)]
  apply (verifyShare_commitments_eq_ok_iff _ _ poly).mpr
  rw [toScalar_ofNat_of_lt (by omega)]

/-- `run_dkg` returns the table of the sum of the drawn polynomials. -/
theorem runDkg_eq_ok {config : ThresholdConfig}
    (ht : 1 ≤ config.threshold.toNat) (rng : Rng) :
    runDkg (P := P) config rng =
      .ok (shareVector (combined (dkgPolynomials config rng).1)
        config.total.toNat, (dkgPolynomials config rng).2) := by
  have hcount : (dkgPolynomials config rng).1.length = config.total.toNat := by
    simp [dkgPolynomials]
  have hne : ∀ poly ∈ (dkgPolynomials config rng).1,
      poly.coefficients ≠ [] := by
    intro poly hpoly
    have hlength := dkgPolynomials_length_coefficients ht hpoly
    rw [← List.length_pos_iff]
    omega
  have hdeal : dealContributions (P := P) Polynomial.randomFull
      (fun _ => .ok ⟨⟩) config.threshold.toNat config.total.toNat
      (List.range' 1 config.total.toNat) rng =
      .ok (dealt config.total.toNat (dkgPolynomials config rng).1,
        (dkgPolynomials config rng).2) := by
    rw [dealContributions_eq_ok _ _ ht _ (fun _ => rfl), List.length_range']
    rfl
  rw [runDkg]
  simp only [hdeal, ok_bind, verifyContributions_dealt config.total.toNat_lt,
    combineContributions_dealt hcount hne]
  rfl

theorem debugAssertIdentity_random (degree : ℕ) (rng : Rng) :
    debugAssertIdentity
      ((Polynomial.random degree 0 rng).1.commitments (P := P)) =
      .ok ⟨⟩ := by
  simp [debugAssertIdentity, Polynomial.random, Polynomial.commitments, index]

/-- `rotate_shares` on any vector whose shares all carry the group key and the
verification shares of `F`. -/
theorem rotateShares_eq_ok_of_tables (F : Scalar[X])
    {oldShares : List (KeyShare P)} (hn : oldShares.length < 2 ^ 32)
    (hne : oldShares ≠ [])
    (htable : ∀ share ∈ oldShares,
      share.verificationShares = verificationTable F oldShares.length)
    {key : P} (hkey : ∀ share ∈ oldShares, share.groupPublicKey = key)
    {newConfig : ThresholdConfig} (ht : 1 ≤ newConfig.threshold.toNat)
    (rng : Rng) :
    rotateShares oldShares newConfig rng =
      .ok ((List.range' 1 oldShares.length).map
          (rotatedAt F (rotationDelta oldShares.length newConfig rng) key
            oldShares),
        (rotationPolynomials oldShares.length newConfig rng).2) := by
  have hcount : (rotationPolynomials oldShares.length newConfig rng).1.length =
      oldShares.length := by
    simp [rotationPolynomials]
  have hdeal : dealContributions (P := P)
      (fun degree => Polynomial.random degree 0) debugAssertIdentity
      newConfig.threshold.toNat oldShares.length
      (List.range' 1 oldShares.length) rng =
      .ok (dealt oldShares.length
          (rotationPolynomials oldShares.length newConfig rng).1,
        (rotationPolynomials oldShares.length newConfig rng).2) := by
    rw [dealContributions_eq_ok _ _ ht _
      (fun rng => debugAssertIdentity_random _ rng), List.length_range']
    rfl
  have hfirst : index oldShares 0 = .ok (oldShares.head hne) := by
    apply index_eq_ok_of_getElem?
    rw [← List.head?_eq_getElem?, List.head?_eq_some_head hne]
  rw [rotateShares, hfirst, ok_bind]
  simp only [hdeal, ok_bind, verifyContributions_dealt hn]
  rw [hkey _ (List.head_mem hne),
    combineRotation_eq_ok F hn rfl htable key hcount]
  rfl

/-- `rotate_shares` on the table of `F`. -/
theorem rotateShares_eq_ok (F : Scalar[X]) {n : ℕ} (hn : n < 2 ^ 32)
    (hpos : 1 ≤ n) {newConfig : ThresholdConfig}
    (ht : 1 ≤ newConfig.threshold.toNat) (rng : Rng) :
    rotateShares (shareVector (P := P) F n) newConfig rng =
      .ok (shareVector (F + rotationDelta n newConfig rng) n,
        (rotationPolynomials n newConfig rng).2) := by
  have hsharing := isSharing_shareVector (P := P) F hn
  have hne : shareVector (P := P) F n ≠ [] := by
    rw [← List.length_pos_iff, shareVector_length]
    exact hpos
  have hrotate := rotateShares_eq_ok_of_tables F
    (by rwa [shareVector_length]) hne hsharing.verificationShares_eq
    hsharing.groupPublicKey_eq ht rng
  have hat : ∀ i ∈ List.range' 1 n, rotatedAt F (rotationDelta n newConfig rng)
      (basepointMul (F.eval 0)) (shareVector (P := P) F n) i =
        shareAt (F + rotationDelta n newConfig rng) n i := by
    intro i hi
    rw [List.mem_range'_1] at hi
    rw [rotatedAt, secretAt_shareVector F hi.1 (by omega), shareVector_length,
      shareAt, Polynomial.eval_add, Polynomial.eval_add,
      eval_zero_rotationDelta, add_zero]
    rfl
  rw [hrotate, shareVector_length, List.map_congr_left hat]
  rfl

end CraftSec
