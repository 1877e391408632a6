/-
The shared data types: threshold configurations, key shares, attestation
requests and the transactions that get signed.
-/
import CraftSec.Core.Error
import CraftSec.Core.Json

namespace CraftSec

/-- `ThresholdConfig`.  The fields are public and deserialisable, so a value
need not have passed `new`. -/
structure ThresholdConfig where
  threshold : UInt32
  total : UInt32
deriving Repr, DecidableEq

def ThresholdConfig.new (threshold total : UInt32) :
    Outcome ThresholdConfig :=
  if threshold = 0 ∨ total < threshold then
    Outcome.err (.invalidThreshold threshold total)
  else
    .ok ⟨threshold, total⟩

/-- What `new` checks. -/
def ThresholdConfig.Valid (config : ThresholdConfig) : Prop :=
  1 ≤ config.threshold.toNat ∧ config.threshold.toNat ≤ config.total.toNat

theorem ThresholdConfig.new_eq_ok_iff (threshold total : UInt32)
    (config : ThresholdConfig) :
    ThresholdConfig.new threshold total = .ok config ↔
      config = ⟨threshold, total⟩ ∧ config.Valid := by
  have hzero : threshold = 0 ↔ threshold.toNat = 0 := by
    rw [← UInt32.toNat_inj]
    rfl
  have hlt : total < threshold ↔ total.toNat < threshold.toNat :=
    UInt32.lt_iff_toNat_lt
  unfold ThresholdConfig.new ThresholdConfig.Valid
  split
  next hbad =>
    constructor
    · intro heq
      cases heq
    · rintro ⟨rfl, hpos, hle⟩
      simp only at hpos hle
      rcases hbad with hbad | hbad
      · have := hzero.mp hbad
        omega
      · have := hlt.mp hbad
        omega
  next hgood =>
    have hpos : threshold.toNat ≠ 0 := fun h => hgood (Or.inl (hzero.mpr h))
    have hle : ¬ total.toNat < threshold.toNat :=
      fun h => hgood (Or.inr (hlt.mpr h))
    constructor
    · intro heq
      cases heq
      exact ⟨rfl, Nat.one_le_iff_ne_zero.mpr hpos, Nat.le_of_not_lt hle⟩
    · rintro ⟨rfl, _⟩
      rfl

/-- A participant's 1-based index. -/
abbrev ParticipantIndex := UInt32

/-- `Scalar::from(i as u64)`. -/
def ParticipantIndex.toScalar (i : ParticipantIndex) : Scalar :=
  (i.toNat : ℕ)

/-- `i.to_le_bytes()`. -/
def ParticipantIndex.toLeBytes (i : ParticipantIndex) : Bytes :=
  leBytes 4 i.toNat

theorem ParticipantIndex.toScalar_injective :
    Function.Injective ParticipantIndex.toScalar := by
  intro i j heq
  apply UInt32.toNat_inj.mp
  exact natCast_scalar_injOn (lt_trans i.toNat_lt two_pow_32_lt_ell)
    (lt_trans j.toNat_lt two_pow_32_lt_ell) heq

/-- A key share held by one participant. -/
structure KeyShare (P : Type) where
  index : ParticipantIndex
  secret : Scalar
  groupPublicKey : P
  verificationShares : List (ParticipantIndex × P)
deriving DecidableEq

/-- An attestation request from a client. -/
structure AttestationRequest where
  programCid : String
  requester : String
  args : Json
  requestId : String

/-- A transaction to be attested. -/
structure Transaction where
  seq : UInt64
  prevHash : String
  sender : String
  recipient : String
  amount : F64
  asset : String
  timestamp : UInt64
  programCid : String
  userSig : String
deriving Repr, DecidableEq

/-- `Transaction::signing_bytes`: the compact JSON of the nine fields. -/
def Transaction.signingBytes [FloatFormat] (tx : Transaction) : Bytes :=
  writeObject
    [("seq", writeU64 tx.seq),
     ("prev_hash", writeString tx.prevHash),
     ("sender", writeString tx.sender),
     ("recipient", writeString tx.recipient),
     ("amount", writeF64 tx.amount),
     ("asset", writeString tx.asset),
     ("timestamp", writeU64 tx.timestamp),
     ("program_cid", writeString tx.programCid),
     ("user_sig", writeString tx.userSig)]

/-- Result of program attestation. -/
inductive AttestationResult where
  | valid (tx : Transaction)
  | invalid (reason : String)
deriving Repr, DecidableEq

end CraftSec
