/-
Proactive secret sharing: every participant deals a polynomial with constant
term zero and all zero-shares are added to the existing shares.
-/
import CraftSec.Dkg.Feldman

namespace CraftSec

variable {P : Type} [EdwardsGroup P] [DecidableEq P]

/-- A participant's zero-share contribution; it carries the same fields as a
contribution to the key-generation ceremony. -/
abbrev RotationContribution (P : Type) := DkgContribution P

/-- `debug_assert_eq!(commitments[0], EdwardsPoint::default())`. -/
def debugAssertIdentity (commitments : List P) : Outcome Unit := do
  let constant ← index commitments 0
  if constant = 0 then .ok ⟨⟩ else Outcome.panic

/-- The last step of `rotate_shares`: each participant adds its zero-shares to
its old secret, and the old verification shares are shifted alongside. -/
def combineRotation (oldShares : List (KeyShare P)) (groupPublicKey : P)
    (contributions : List (RotationContribution P)) :
    Outcome (List (KeyShare P)) :=
  (List.range' 1 oldShares.length).mapM fun i => do
    let old ← index oldShares (i - 1)
    let delta ← sumShares contributions i
    let verificationShares ← (List.range' 1 oldShares.length).mapM fun j => do
      -- The old point is looked up in the share at position `j - 1`, by index.
      let oldHolder ← index oldShares (j - 1)
      let oldVk ← unwrap
        (oldHolder.verificationShares.find? fun entry =>
          entry.1 == UInt32.ofNat j)
      let deltaJ ← sumShares contributions j
      return (UInt32.ofNat j, oldVk.2 + basepointMul deltaJ)
    return ⟨UInt32.ofNat i, old.secret + delta, groupPublicKey,
      verificationShares⟩

/-- `rotate_shares`. -/
def rotateShares (oldShares : List (KeyShare P)) (newConfig : ThresholdConfig)
    (rng : Rng) : Outcome (List (KeyShare P) × Rng) := do
  let n := oldShares.length
  let t := newConfig.threshold.toNat
  let first ← index oldShares 0
  let (contributions, rng) ←
    dealContributions (fun degree => Polynomial.random degree 0)
      debugAssertIdentity t n (List.range' 1 n) rng
  verifyContributions n contributions
  let newShares ← combineRotation oldShares first.groupPublicKey contributions
  return (newShares, rng)

end CraftSec
