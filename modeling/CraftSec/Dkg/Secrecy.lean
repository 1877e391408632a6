/-
Proactive secrecy.  Shifting one dealer's coefficients by polynomials that
vanish on the coalitions moves the group secret and nothing a coalition holds,
although the coalition may change from one rotation to the next.
-/
import CraftSec.Dkg.Coins
import CraftSec.Dkg.Invariant

open scoped Polynomial

namespace CraftSec

open Interpolation (ofCoeffs mask)

variable {P : Type} [EdwardsGroup P]

/-- The coefficients drawn in one ceremony and `r` rotations.  A rotation
polynomial's constant term is zero and not drawn. -/
abbrev Coins (n t r : ℕ) :=
  (Fin n → Fin t → Scalar) × (Fin r → Fin n → Fin (t - 1) → Scalar)

/-- The byte sources of one ceremony and `r` rotations. -/
structure Sources (r : ℕ) where
  dkg : Rng
  rotation : Fin r → Rng

/-- The coefficients that the byte sources make the routines draw.  The
rotations keep the threshold; the totals in their configurations are free. -/
structure Draws (config : ThresholdConfig) {r : ℕ} (totals : Fin r → UInt32)
    (sources : Sources r)
    (coins : Coins config.total.toNat config.threshold.toNat r) : Prop where
  dkg : (dkgPolynomials config sources.dkg).1 = dkgPolys coins.1
  rotation : ∀ k, (rotationPolynomials config.total.toNat
    ⟨config.threshold, totals k⟩ (sources.rotation k)).1 =
      zeroPolys (coins.2 k)

/-- No choice of coefficients is out of reach. -/
theorem exists_draws {config : ThresholdConfig}
    (ht : 1 ≤ config.threshold.toNat) {r : ℕ} (totals : Fin r → UInt32)
    (coins : Coins config.total.toNat config.threshold.toNat r) :
    ∃ sources, Draws config totals sources coins := by
  obtain ⟨dkg, hdkg⟩ := exists_rng_dkgPolynomials ht coins.1
  have hrotation := fun k =>
    exists_rng_rotationPolynomials ⟨config.threshold, totals k⟩ (coins.2 k)
  choose rotation hrotation using hrotation
  exact ⟨⟨dkg, rotation⟩, hdkg, hrotation⟩

/-- The polynomial shared in epoch `e`: the ceremony's and the first `e`
rotations'. -/
noncomputable def epochPolynomial {n t r : ℕ} (coins : Coins n t r) (e : ℕ) :
    Scalar[X] :=
  combined (dkgPolys coins.1) +
    ((List.ofFn fun k => combined (zeroPolys (coins.2 k))).take e).sum

/-- Rotations leave the group secret alone. -/
theorem epochPolynomial_eval_zero {n t r : ℕ} (coins : Coins n t r) (e : ℕ) :
    (epochPolynomial coins e).eval 0 = (epochPolynomial coins 0).eval 0 := by
  have hsum : ∀ value ∈ ((List.ofFn fun k =>
      combined (zeroPolys (coins.2 k))).take e).map (Polynomial.eval 0),
      value = 0 := by
    intro value hvalue
    obtain ⟨summand, hsummand, rfl⟩ := List.mem_map.mp hvalue
    have hmem := List.mem_of_mem_take hsummand
    rw [List.mem_ofFn] at hmem
    obtain ⟨k, rfl⟩ := hmem
    rw [combined_zeroPolys, Polynomial.eval_finsetSum]
    apply Finset.sum_eq_zero
    intro i _
    exact Interpolation.eval_zero_ofCoeffs_cons 0 _
  simp only [epochPolynomial, Polynomial.eval_add, Polynomial.eval_listSum,
    List.sum_eq_zero hsum, List.take_zero, List.sum_nil,
    Polynomial.eval_zero]

section Offsets

/-- The first dealer's row, and zeros for everybody else. -/
def concentrate {n m : ℕ} (row : Fin m → Scalar) : Fin n → Fin m → Scalar :=
  fun i k => if i.val = 0 then row k else 0

theorem sum_concentrate {n m : ℕ} (hn : 0 < n)
    (build : (Fin m → Scalar) → Scalar[X])
    (hzero : build (fun _ => 0) = 0) (row : Fin m → Scalar) :
    ∑ i : Fin n, build (concentrate row i) = build row := by
  have hfirst : concentrate row (⟨0, hn⟩ : Fin n) = row := by
    funext k
    simp [concentrate]
  rw [Finset.sum_eq_single ⟨0, hn⟩, hfirst]
  · intro i _ hne
    have hi : i.val ≠ 0 := fun heq => hne (Fin.ext heq)
    have hrow : concentrate row i = fun _ => 0 := by
      funext k
      simp [concentrate, hi]
    rw [hrow, hzero]
  · intro habsent
    exact absurd (Finset.mem_univ _) habsent

/-- Shift the ceremony by the first mask and every rotation by the step to the
next one, all in the first dealer's row. -/
noncomputable def maskOffset {n t r : ℕ} (masks : ℕ → Scalar[X]) :
    Coins n t r :=
  (concentrate fun k => (masks 0).coeff k,
    fun e => concentrate fun k => (masks (e + 1) - masks e).coeff (k + 1))

theorem combined_dkgPolys_add {n t : ℕ} (left right : Fin n → Fin t → Scalar) :
    combined (dkgPolys (left + right)) =
      combined (dkgPolys left) + combined (dkgPolys right) := by
  simp only [combined_dkgPolys, ← Finset.sum_add_distrib,
    ← Interpolation.ofCoeffs_ofFn_add]
  rfl

theorem combined_zeroPolys_add {n m : ℕ} (left right : Fin n → Fin m → Scalar) :
    combined (zeroPolys (left + right)) =
      combined (zeroPolys left) + combined (zeroPolys right) := by
  simp only [combined_zeroPolys, ofCoeffs, ← Finset.sum_add_distrib,
    Polynomial.C_0, zero_add, ← mul_add, ← Interpolation.ofCoeffs_ofFn_add]
  rfl

theorem combined_dkgPolys_concentrate {n t : ℕ} (hn : 0 < n) {Q : Scalar[X]}
    (hdegree : Q.degree < t) :
    combined (dkgPolys (n := n) (t := t)
      (concentrate fun k => Q.coeff k)) = Q := by
  rw [combined_dkgPolys, sum_concentrate hn (fun row => ofCoeffs (List.ofFn row))
    (Interpolation.ofCoeffs_ofFn_zero t)]
  exact Interpolation.ofCoeffs_ofFn_coeff hdegree

theorem combined_zeroPolys_concentrate {n t : ℕ} (hn : 0 < n) (ht : 1 ≤ t)
    {Q : Scalar[X]} (hdegree : Q.degree < t) (hzero : Q.coeff 0 = 0) :
    combined (zeroPolys (n := n)
      (concentrate fun k : Fin (t - 1) => Q.coeff (k + 1))) = Q := by
  have hrow : ofCoeffs (0 :: List.ofFn fun _ : Fin (t - 1) => (0 : Scalar)) =
      0 := by
    rw [ofCoeffs, Interpolation.ofCoeffs_ofFn_zero]
    simp
  rw [combined_zeroPolys,
    sum_concentrate hn (fun row => ofCoeffs (0 :: List.ofFn row)) hrow]
  apply Interpolation.ofCoeffs_zero_cons_coeff _ hzero
  rwa [Nat.sub_add_cancel ht]

/-- The shifts telescope to the mask of the current epoch. -/
theorem epochPolynomial_add_maskOffset {n t r : ℕ} (hn : 0 < n) (ht : 1 ≤ t)
    {masks : ℕ → Scalar[X]} (hdegree : ∀ e ≤ r, (masks e).degree < t)
    {delta : Scalar} (hzero : ∀ e ≤ r, (masks e).eval 0 = delta)
    (coins : Coins n t r) {e : ℕ} (he : e ≤ r) :
    epochPolynomial (coins + maskOffset masks) e =
      epochPolynomial coins e + masks e := by
  induction e with
  | zero =>
      have hmask := combined_dkgPolys_concentrate hn (hdegree 0 (Nat.zero_le r))
      simp only [epochPolynomial, List.take_zero, List.sum_nil, add_zero,
        Prod.fst_add, combined_dkgPolys_add, maskOffset, hmask]
  | succ e ih =>
      have hlt : e < r := he
      have hstep : (masks (e + 1) - masks e).degree < t := by
        apply lt_of_le_of_lt (Polynomial.degree_sub_le _ _)
        exact max_lt (hdegree _ he) (hdegree _ (by omega))
      have hconstant : (masks (e + 1) - masks e).coeff 0 = 0 := by
        rw [Polynomial.coeff_zero_eq_eval_zero, Polynomial.eval_sub,
          hzero _ he, hzero _ (by omega), sub_self]
      have hmask := combined_zeroPolys_concentrate hn ht hstep hconstant
      have hprevious := ih (by omega)
      simp only [epochPolynomial] at hprevious ⊢
      rw [List.sum_take_succ _ e (by simpa using hlt),
        List.sum_take_succ _ e (by simpa using hlt), ← add_assoc, ← add_assoc,
        hprevious]
      simp only [List.getElem_ofFn, Prod.snd_add, Pi.add_apply,
        combined_zeroPolys_add, maskOffset, hmask]
      ring

end Offsets

variable [DecidableEq P]

/-- The shares held in epoch `e`. -/
def epochShares (config : ThresholdConfig) {r : ℕ} (totals : Fin r → UInt32)
    (sources : Sources r) (e : ℕ) : Outcome (List (KeyShare P)) := do
  let (shares, _) ← runDkg config sources.dkg
  rotateAll shares
    ((List.ofFn fun k =>
      (⟨config.threshold, totals k⟩, sources.rotation k)).take e)

theorem rotateAll_shareVector (F : Scalar[X]) {n : ℕ} (hn : n < 2 ^ 32)
    (hpos : 1 ≤ n) (rotations : List (ThresholdConfig × Rng))
    (ht : ∀ rotation ∈ rotations, 1 ≤ rotation.1.threshold.toNat) :
    rotateAll (shareVector (P := P) F n) rotations =
      .ok (shareVector (F + (rotations.map fun rotation =>
        combined (rotationPolynomials n rotation.1 rotation.2).1).sum) n) := by
  induction rotations generalizing F with
  | nil => simp [rotateAll]
  | cons rotation rest ih =>
      obtain ⟨newConfig, rng⟩ := rotation
      have hstep := rotateShares_eq_ok (P := P) F hn hpos
        (ht _ List.mem_cons_self) rng
      rw [rotateAll, hstep, ok_bind, rotationDelta]
      simp only [List.map_cons, List.sum_cons, ← add_assoc]
      exact ih _ fun rotation hmem => ht rotation (List.mem_cons_of_mem _ hmem)

/-- The shares of epoch `e` are the table of its polynomial. -/
theorem epochShares_eq_ok {config : ThresholdConfig} (hvalid : config.Valid)
    {r : ℕ} {totals : Fin r → UInt32} {sources : Sources r}
    {coins : Coins config.total.toNat config.threshold.toNat r}
    (hdraws : Draws config totals sources coins) (e : ℕ) :
    epochShares (P := P) config totals sources e =
      .ok (shareVector (epochPolynomial coins e) config.total.toNat) := by
  have hpos : 1 ≤ config.total.toNat := le_trans hvalid.1 hvalid.2
  rw [epochShares, runDkg_eq_ok hvalid.1, ok_bind]
  dsimp only
  rw [rotateAll_shareVector _ config.total.toNat_lt hpos, hdraws.dkg,
    List.map_take, List.map_ofFn]
  · simp only [Function.comp_def, hdraws.rotation]
    rfl
  · intro rotation hrotation
    have hmem := List.mem_of_mem_take hrotation
    rw [List.mem_ofFn] at hmem
    obtain ⟨k, rfl⟩ := hmem
    exact hvalid.1

omit [DecidableEq P] in
theorem shareVector_getElem?_secret (F : Scalar[X]) {n i : ℕ} (hi : i < n) :
    (shareVector (P := P) F n)[i]?.map KeyShare.secret =
      some (F.eval ((i + 1 : ℕ) : Scalar)) := by
  have hlt : i < (shareVector (P := P) F n).length := by
    rwa [shareVector_length]
  rw [List.getElem?_eq_getElem hlt, shareVector_getElem]
  rfl

/-- The mask of a coalition, whose member at position `i` holds the value at
`i + 1`. -/
noncomputable def coalitionMask {n : ℕ} (delta : Scalar)
    (members : Finset (Fin n)) : Scalar[X] :=
  mask delta (members.image fun i => ((i.val + 1 : ℕ) : Scalar))

section CoalitionMask

variable {n : ℕ} (delta : Scalar) {members : Finset (Fin n)}

theorem eval_coalitionMask_member {i : Fin n} (hi : i ∈ members) :
    (coalitionMask delta members).eval ((i.val + 1 : ℕ) : Scalar) = 0 :=
  Interpolation.eval_mask_node delta (Finset.mem_image_of_mem _ hi)

theorem eval_coalitionMask_zero (hn : n < 2 ^ 32) :
    (coalitionMask delta members).eval 0 = delta := by
  apply Interpolation.eval_mask_zero
  intro hmem
  obtain ⟨i, _, hi⟩ := Finset.mem_image.mp hmem
  have hlt : i.val + 1 < ell := by
    have hell := two_pow_32_lt_ell
    have hbound := i.isLt
    omega
  have hcast : ((i.val + 1 : ℕ) : Scalar) = (0 : ℕ) := by
    rw [hi, Nat.cast_zero]
  have hnat := natCast_scalar_injOn hlt ell_prime.pos hcast
  omega

theorem degree_coalitionMask_lt {t : ℕ} (ht : 1 ≤ t)
    (hsmall : members.card ≤ t - 1) :
    (coalitionMask delta members).degree < t := by
  apply lt_of_le_of_lt (Interpolation.degree_mask_le delta _)
  have hcard := Finset.card_image_le (s := members)
    (f := fun i => ((i.val + 1 : ℕ) : Scalar))
  exact_mod_cast (by omega :
    (members.image fun i => ((i.val + 1 : ℕ) : Scalar)).card < t)

end CoalitionMask

/-- Fewer than `threshold` secrets per epoch fit every group secret: for any
coalitions and any `delta` a bijection of the drawn coefficients keeps what the
coalitions hold and moves the group secret by `delta`. -/
theorem proactive_secrecy {config : ThresholdConfig} (hvalid : config.Valid)
    {r : ℕ} (totals : Fin r → UInt32)
    (coalition : ℕ → Finset (Fin config.total.toNat))
    (hsmall : ∀ e ≤ r, (coalition e).card ≤ config.threshold.toNat - 1)
    (delta : Scalar) :
    (∀ coins, ∃ sources, Draws config totals sources coins) ∧
    ∃ shift : Coins config.total.toNat config.threshold.toNat r ≃
        Coins config.total.toNat config.threshold.toNat r,
      ∀ coins sources sources', Draws config totals sources coins →
        Draws config totals sources' (shift coins) →
        ∃ secret : Scalar, ∀ e ≤ r, ∃ shares shares' : List (KeyShare P),
          epochShares config totals sources e = .ok shares ∧
          epochShares config totals sources' e = .ok shares' ∧
          shares.length = config.total.toNat ∧
          shares'.length = config.total.toNat ∧
          (∀ i ∈ coalition e, shares[i.val]?.map KeyShare.secret =
            shares'[i.val]?.map KeyShare.secret) ∧
          HasGroupKey (basepointMul secret) shares ∧
          HasGroupKey (basepointMul (secret + delta)) shares' := by
  have hn : 0 < config.total.toNat := le_trans hvalid.1 hvalid.2
  have hn32 := config.total.toNat_lt
  have hdegree : ∀ e ≤ r, (coalitionMask delta (coalition e)).degree <
      config.threshold.toNat :=
    fun e he => degree_coalitionMask_lt delta hvalid.1 (hsmall e he)
  have hzero : ∀ e ≤ r, (coalitionMask delta (coalition e)).eval 0 = delta :=
    fun e _ => eval_coalitionMask_zero delta hn32
  refine ⟨exists_draws hvalid.1 totals, Equiv.addRight
    (maskOffset fun e => coalitionMask delta (coalition e)), ?_⟩
  intro coins sources sources' hdraws hdraws'
  refine ⟨(epochPolynomial coins 0).eval 0, fun e he => ?_⟩
  have hshift := epochPolynomial_add_maskOffset hn hvalid.1 hdegree hzero
    coins he
  refine ⟨_, _, epochShares_eq_ok hvalid hdraws e,
    epochShares_eq_ok hvalid hdraws' e, shareVector_length _ _,
    shareVector_length _ _, ?_, ?_, ?_⟩
  · intro i hi
    have hmember := eval_coalitionMask_member delta hi
    have hsame : (epochPolynomial (coins + maskOffset fun e =>
        coalitionMask delta (coalition e)) e).eval ((i.val + 1 : ℕ) : Scalar) =
        (epochPolynomial coins e).eval ((i.val + 1 : ℕ) : Scalar) := by
      rw [hshift, Polynomial.eval_add, hmember, add_zero]
    rw [shareVector_getElem?_secret _ i.isLt,
      shareVector_getElem?_secret _ i.isLt]
    exact congrArg some hsame.symm
  · intro share hshare
    rw [(isSharing_shareVector _ hn32).groupPublicKey_eq share hshare,
      epochPolynomial_eval_zero]
  · intro share hshare
    rw [(isSharing_shareVector _ hn32).groupPublicKey_eq share hshare]
    congr 1
    calc (epochPolynomial (coins + maskOffset fun e =>
          coalitionMask delta (coalition e)) e).eval 0
        = (epochPolynomial coins e).eval 0 +
            (coalitionMask delta (coalition e)).eval 0 := by
          rw [hshift, Polynomial.eval_add]
      _ = (epochPolynomial coins 0).eval 0 + delta := by
          rw [epochPolynomial_eval_zero, hzero e he]

/-- Two histories of a 2-of-3 key whose group secrets are one apart.  The first
participant sees the same before the rotation, the second after it. -/
theorem proactive_secrecy_two_of_three :
    ∃ (sources sources' : Sources 1) (secret : Scalar), ∀ e ≤ 1,
      ∃ shares shares' : List (KeyShare ReferencePoint),
        epochShares ⟨2, 3⟩ (fun _ => 3) sources e = .ok shares ∧
        epochShares ⟨2, 3⟩ (fun _ => 3) sources' e = .ok shares' ∧
        shares[e]?.map KeyShare.secret = shares'[e]?.map KeyShare.secret ∧
        HasGroupKey (basepointMul secret) shares ∧
        HasGroupKey (basepointMul (secret + 1)) shares' := by
  let config : ThresholdConfig := ⟨2, 3⟩
  let coalition : ℕ → Finset (Fin config.total.toNat) := fun e =>
    {⟨e % 3, Nat.mod_lt _ (by decide)⟩}
  have hvalid : config.Valid := ⟨by decide, by decide⟩
  obtain ⟨hdrawn, shift, hshift⟩ := proactive_secrecy (P := ReferencePoint)
    hvalid (fun _ : Fin 1 => 3) coalition
    (fun _ _ => (Finset.card_singleton _).le) 1
  obtain ⟨sources, hdraws⟩ := hdrawn 0
  obtain ⟨sources', hdraws'⟩ := hdrawn (shift 0)
  obtain ⟨secret, hepochs⟩ := hshift 0 sources sources' hdraws hdraws'
  refine ⟨sources, sources', secret, fun e he => ?_⟩
  obtain ⟨shares, shares', hrun, hrun', -, -, hsame, hkey, hkey'⟩ :=
    hepochs e he
  have hposition : e % 3 = e := Nat.mod_eq_of_lt (by omega)
  have hmember := hsame ⟨e % 3, Nat.mod_lt _ (by decide)⟩
    (Finset.mem_singleton_self _)
  simp only [hposition] at hmember
  exact ⟨shares, shares', hrun, hrun', hmember, hkey, hkey'⟩

end CraftSec
