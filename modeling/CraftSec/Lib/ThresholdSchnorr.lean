/-
The algebra of threshold Schnorr signatures over an arbitrary abelian group
with a generator killed by a prime.  Responses that satisfy the signers' own
equations add up to a response to the verifier's equation, whatever the nonce
points are.
-/
import CraftSec.Lib.Interpolation
import CraftSec.Lib.PrimeOrder

namespace ThresholdSchnorr

open Interpolation PrimeOrder
open scoped Polynomial

universe u v w

variable {P : Type u} [AddCommGroup P] {q : ℕ} [Fact q.Prime]
variable {ι : Type v} [DecidableEq ι] {E : Type w}

/-- Weighting every signer's public share by its interpolation weight gives
the group key, scaled by the challenge. -/
theorem sum_weighted_shares {generator : P} (hkilled : q • generator = 0)
    (value : ι → ZMod q) (signers : List E) (idx : E → ι)
    (hnodup : (signers.map idx).Nodup) (hinj : Function.Injective value)
    {secret : (ZMod q)[X]} (hdegree : secret.degree < signers.length)
    (challenge : ZMod q) :
    (signers.map fun signer =>
      mul (mul generator (secret.eval (value (idx signer))))
        (zeroWeight value (idx signer) (signers.map idx) * challenge)).sum =
      mul (mul generator (secret.eval 0)) challenge := by
  have hinterpolate := sum_zeroWeight_mul_eval value hnodup
    hinj.injOn (by rwa [List.length_map])
  have hterm : ∀ signer : E,
      mul (mul generator (secret.eval (value (idx signer))))
        (zeroWeight value (idx signer) (signers.map idx) * challenge) =
      mul generator (zeroWeight value (idx signer) (signers.map idx) *
        secret.eval (value (idx signer)) * challenge) := by
    intro signer
    rw [mul_mul hkilled]
    congr 1
    ring
  simp only [hterm]
  rw [← mul_sum hkilled, List.sum_map_mul_right, mul_mul hkilled,
    ← hinterpolate, List.map_map]
  rfl

/-- Responses that pass the signers' equations sum to a response that passes
the verifier's. -/
theorem sum_responses {generator : P} (hkilled : q • generator = 0)
    (value : ι → ZMod q) (signers : List E) (idx : E → ι)
    (hnodup : (signers.map idx).Nodup) (hinj : Function.Injective value)
    {secret : (ZMod q)[X]} (hdegree : secret.degree < signers.length)
    (challenge : ZMod q) (response : E → ZMod q) (nonce : E → P)
    (hresponse : ∀ signer ∈ signers, mul generator (response signer) =
      nonce signer +
        mul (mul generator (secret.eval (value (idx signer))))
          (zeroWeight value (idx signer) (signers.map idx) * challenge)) :
    mul generator (signers.map response).sum =
      (signers.map nonce).sum +
        mul (mul generator (secret.eval 0)) challenge := by
  rw [mul_sum hkilled,
    ← sum_weighted_shares hkilled value signers idx hnodup hinj hdegree,
    ← List.sum_map_add]
  congr 1
  apply List.map_congr_left
  intro signer hsigner
  exact hresponse signer hsigner

omit [DecidableEq ι] in
/-- Responses that follow the signers' equations are accepted exactly as far as
the weighted secrets add up to the secret of the group. -/
theorem accepted_iff {generator : P} (horder : addOrderOf generator = q)
    (signers : List E) (weight secret response : E → ZMod q) (nonce : E → P)
    (groupSecret challenge : ZMod q)
    (hresponse : ∀ signer ∈ signers, mul generator (response signer) =
      nonce signer +
        mul generator (weight signer * secret signer * challenge)) :
    mul generator (signers.map response).sum =
        (signers.map nonce).sum + mul (mul generator groupSecret) challenge ↔
      challenge * ((signers.map fun signer =>
        weight signer * secret signer).sum - groupSecret) = 0 := by
  have hkilled : q • generator = 0 := by
    rw [← horder]
    exact addOrderOf_nsmul_eq_zero generator
  have hsum : mul generator (signers.map response).sum =
      (signers.map nonce).sum + mul generator
        ((signers.map fun signer => weight signer * secret signer).sum *
          challenge) := by
    rw [mul_sum hkilled, ← List.sum_map_mul_right, mul_sum hkilled,
      ← List.sum_map_add]
    congr 1
    apply List.map_congr_left
    intro signer hsigner
    exact hresponse signer hsigner
  rw [hsum, add_right_inj, mul_mul hkilled, (mul_injective horder).eq_iff,
    mul_sub, sub_eq_zero, mul_comm challenge, mul_comm challenge]

end ThresholdSchnorr
