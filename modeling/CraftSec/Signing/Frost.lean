/-
The FROST signing routines: nonces and commitments in round 1, partial
signatures in round 2, aggregation and the two verification equations.
-/
import CraftSec.Signing.Lagrange

namespace CraftSec

variable {P : Type} [EdwardsGroup P]

/-- Nonce pair for round 1. -/
structure SigningNonce where
  index : ParticipantIndex
  d : Scalar
  e : Scalar
deriving DecidableEq

/-- Public commitment for round 1. -/
structure SigningCommitment (P : Type) where
  index : ParticipantIndex
  «hiding» : P
  binding : P
deriving DecidableEq

/-- A partial signature from one signer. -/
structure PartialSignature where
  index : ParticipantIndex
  z : Scalar
deriving DecidableEq

/-- The final aggregated signature. -/
structure ThresholdSignature (P : Type) where
  r : P
  s : Scalar
deriving DecidableEq

/-- The commitment `(d * G, e * G)` published for a nonce pair. -/
def SigningNonce.commitment (nonce : SigningNonce) : SigningCommitment P where
  index := nonce.index
  «hiding» := basepointMul nonce.d
  binding := basepointMul nonce.e

/-- A commitment determines the nonce pair behind it. -/
theorem SigningNonce.commitment_injective :
    Function.Injective (SigningNonce.commitment (P := P)) := by
  rintro ⟨index, d, e⟩ ⟨index', d', e'⟩ heq
  have hindex : index = index' := congrArg SigningCommitment.index heq
  have hd : d = d' :=
    basepointMul_injective (congrArg SigningCommitment.hiding heq)
  have he : e = e' :=
    basepointMul_injective (congrArg SigningCommitment.binding heq)
  rw [hindex, hd, he]

/-- `generate_nonces`. -/
def generateNonces (index : ParticipantIndex) (rng : Rng) :
    (SigningNonce × SigningCommitment P) × Rng :=
  let (d, rng) := randomScalar rng
  let (e, rng) := randomScalar rng
  let nonce : SigningNonce := ⟨index, d, e⟩
  ((nonce, nonce.commitment), rng)

/-- The bytes of one commitment inside the binding-factor input. -/
def SigningCommitment.toBytes (c : SigningCommitment P) : Bytes :=
  c.index.toLeBytes ++ (EdwardsGroup.compress c.hiding).toList ++
    (EdwardsGroup.compress c.binding).toList

/-- What `binding_factor` hashes. -/
def bindingInput (index : ParticipantIndex) (message : Bytes)
    (commitments : List (SigningCommitment P)) : Bytes :=
  index.toLeBytes ++ message ++ commitments.flatMap SigningCommitment.toBytes

variable [Sha512]

/-- `binding_factor`. -/
def bindingFactor (index : ParticipantIndex) (message : Bytes)
    (commitments : List (SigningCommitment P)) : Scalar :=
  hashToScalar (bindingInput index message commitments)

/-- The summand of the group commitment that belongs to one signer. -/
def boundCommitment (message : Bytes)
    (commitments : List (SigningCommitment P)) (c : SigningCommitment P) : P :=
  c.hiding + pointMul c.binding (bindingFactor c.index message commitments)

/-- `group_commitment`. -/
def groupCommitment (message : Bytes)
    (commitments : List (SigningCommitment P)) : P :=
  (commitments.map (boundCommitment message commitments)).sum

/-- `compute_challenge`. -/
def computeChallenge (r publicKey : P) (message : Bytes) : Scalar :=
  fromBytesModOrderWide
    (Sha512.digest
      ((EdwardsGroup.compress r).toList ++
        (EdwardsGroup.compress publicKey).toList ++ message))

/-- `sign_partial`.  It checks nothing and always returns a signature. -/
def signPartial (keyShare : KeyShare P) (nonce : SigningNonce)
    (message : Bytes) (commitments : List (SigningCommitment P)) :
    Outcome PartialSignature :=
  let signerIndices := commitments.map SigningCommitment.index
  let r := groupCommitment message commitments
  let challenge := computeChallenge r keyShare.groupPublicKey message
  let rho := bindingFactor keyShare.index message commitments
  let lambda := lagrangeCoefficient keyShare.index signerIndices
  let z := nonce.d + nonce.e * rho + lambda * keyShare.secret * challenge
  .ok ⟨keyShare.index, z⟩

/-- `aggregate`. -/
def aggregate (message : Bytes) (commitments : List (SigningCommitment P))
    (partials : List PartialSignature) : ThresholdSignature P where
  r := groupCommitment message commitments
  s := (partials.map PartialSignature.z).sum

variable [DecidableEq P]

/-- `verify_partial`. -/
def verifyPartial (part : PartialSignature) (commitment : SigningCommitment P)
    (verificationShare : P) (message : Bytes)
    (commitments : List (SigningCommitment P)) (groupPublicKey : P) :
    Outcome Unit :=
  let signerIndices := commitments.map SigningCommitment.index
  let r := groupCommitment message commitments
  let challenge := computeChallenge r groupPublicKey message
  let rho := bindingFactor part.index message commitments
  let lambda := lagrangeCoefficient part.index signerIndices
  let lhs := basepointMul part.z
  let rhs := commitment.hiding + pointMul commitment.binding rho +
    pointMul verificationShare (lambda * challenge)
  if lhs = rhs then
    .ok ⟨⟩
  else
    Outcome.err (.invalidSignature
      s!"partial signature verification failed for participant {part.index}")

/-- `verify`. -/
def verify (signature : ThresholdSignature P) (publicKey : P)
    (message : Bytes) : Outcome Unit :=
  let challenge := computeChallenge signature.r publicKey message
  let lhs := basepointMul signature.s
  let rhs := signature.r + pointMul publicKey challenge
  if lhs = rhs then
    .ok ⟨⟩
  else
    Outcome.err (.invalidSignature "threshold signature verification failed")

/-- The equation a single partial signature is checked against. -/
theorem verifyPartial_eq_ok_iff (part : PartialSignature)
    (commitment : SigningCommitment P) (verificationShare : P)
    (message : Bytes) (commitments : List (SigningCommitment P))
    (groupPublicKey : P) :
    verifyPartial part commitment verificationShare message commitments
        groupPublicKey = .ok ⟨⟩ ↔
      basepointMul part.z =
        commitment.hiding +
            pointMul commitment.binding
              (bindingFactor part.index message commitments) +
          pointMul verificationShare
            (lagrangeCoefficient part.index
                (commitments.map SigningCommitment.index) *
              computeChallenge (groupCommitment message commitments)
                groupPublicKey message) :=
  ite_eq_ok_iff _

/-- The Schnorr equation. -/
theorem verify_eq_ok_iff (signature : ThresholdSignature P) (publicKey : P)
    (message : Bytes) :
    verify signature publicKey message = .ok ⟨⟩ ↔
      basepointMul signature.s =
        signature.r +
          pointMul publicKey
            (computeChallenge signature.r publicKey message) :=
  ite_eq_ok_iff _

/-- A hash function that tells whether its input passes a test. -/
@[reducible]
def testHash (test : Bytes → Bool) : Sha512 where
  digest data := Vector.ofFn fun i =>
    if i = 0 then if test data then 1 else 0 else 0

omit [Sha512] in
theorem fromBytesModOrderWide_testHash (test : Bytes → Bool) (data : Bytes) :
    fromBytesModOrderWide ((testHash test).digest data) =
      if test data then 1 else 0 := by
  change fromBytesModOrderWide (Vector.ofFn fun i : Fin 64 =>
    if i = 0 then if test data then 1 else 0 else 0) = _
  cases test data with
  | false => decide +kernel
  | true => decide +kernel

omit [Sha512] [DecidableEq P] in
theorem computeChallenge_testHash (test : Bytes → Bool) (r publicKey : P)
    (message : Bytes) :
    letI := testHash test
    computeChallenge r publicKey message =
      if test ((EdwardsGroup.compress r).toList ++
        (EdwardsGroup.compress publicKey).toList ++ message) then 1 else 0 :=
  fromBytesModOrderWide_testHash test _

end CraftSec
