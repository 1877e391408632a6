/-
Program-derived keys: a single polynomial whose coefficients are hashed out of
the program CID and a seed.
-/
import CraftSec.Dkg.Feldman

namespace CraftSec

variable {P : Type} [EdwardsGroup P] [Sha512]

/-- The bytes that `derive_scalar` hashes. -/
def derivationInput (ikm info : Bytes) (index : UInt32) : Bytes :=
  utf8 "CraftSEC-PDK-v1" ++ ikm ++ info ++ leBytes 4 index.toNat

/-- `derive_scalar`. -/
def deriveScalar (ikm info : Bytes) (index : UInt32) : Scalar :=
  fromBytesModOrderWide (Sha512.digest (derivationInput ikm info index))

/-- The input key material, with its separator byte. -/
def inputKeyMaterial (programCid seed : String) : Bytes :=
  utf8 programCid ++ [0xFF] ++ utf8 seed

/-- The polynomial behind a derived key. -/
def derivePolynomial (programCid seed : String) (t : ℕ) : Polynomial :=
  ⟨(List.range t).map fun i =>
    deriveScalar (inputKeyMaterial programCid seed) (utf8 "coefficient")
      (UInt32.ofNat i)⟩

/-- `derive_key`. -/
def deriveKey (programCid seed : String) (config : ThresholdConfig) :
    Outcome (P × List (KeyShare P)) := do
  let t := config.threshold.toNat
  let n := config.total.toNat
  let poly := derivePolynomial programCid seed t
  let groupPublicKey ← index poly.commitments 0
  let keyShares := (List.range' 1 n).map fun i =>
    (⟨UInt32.ofNat i, poly.evaluate (i : Scalar), groupPublicKey,
      (List.range' 1 n).map fun j =>
        (UInt32.ofNat j, basepointMul (poly.evaluate (j : Scalar)))⟩ :
      KeyShare P)
  return (groupPublicKey, keyShares)

end CraftSec
