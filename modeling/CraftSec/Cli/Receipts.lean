/-
The life of a receipt.  It is made of a program's arguments and result, signed
by a quorum, collects entries and travels as JSON; the signature in it stays
one of its statement, and of no other statement whose challenge differs.
-/
import CraftSec.Cli.VerifyReceipt
import CraftSec.Client.Messages
import CraftSec.Signing.Completeness

open scoped Polynomial

namespace CraftSec

section Hex

theorem toLower_hexDigit {n : UInt8} (hn : n < 16) :
    (Char.ofNat (hexDigit n).toNat).toLower =
      Char.ofNat (hexDigit n).toNat := by
  have hall : ∀ m < 16, (Char.ofNat (hexDigit (UInt8.ofNat m)).toNat).toLower =
      Char.ofNat (hexDigit (UInt8.ofNat m)).toNat := by
    decide +kernel
  have hself := hall n.toNat (UInt8.lt_iff_toNat_lt.mp hn)
  rwa [UInt8.ofNat_toNat] at hself

/-- Hexadecimal text is in lower case. -/
theorem toLower_hexEncode (bytes : Bytes) :
    (hexEncode bytes).toLower = hexEncode bytes := by
  change (hexEncode bytes).map Char.toLower = hexEncode bytes
  rw [hexEncode, ← String.toList_inj, String.toList_map, String.toList_ofList,
    List.map_flatMap]
  apply List.flatMap_congr
  intro byte _
  have hhigh : byte / 16 < 16 := by
    rw [UInt8.lt_iff_toNat_lt, UInt8.toNat_div]
    exact Nat.div_lt_of_lt_mul byte.toNat_lt
  have hlow : byte % 16 < 16 := by
    rw [UInt8.lt_iff_toNat_lt, UInt8.toNat_mod]
    exact Nat.mod_lt _ (by decide)
  rw [List.map_cons, List.map_singleton, toLower_hexDigit hhigh,
    toLower_hexDigit hlow]

end Hex

namespace AttestationReceipt

/-- `AttestationReceipt::to_json`. -/
def toJson [FloatFormat] (receipt : AttestationReceipt) : String :=
  toText receipt

/-- What a holder of a receipt does with it. -/
inductive Step where
  | addSignature (nodeIndex : UInt32) (signatureHex : String)
  | send
deriving DecidableEq

variable [FloatFormat] [SerdeJsonText]

/-- An entry is added, or the text is read by the next holder. -/
def step (receipt : AttestationReceipt) : Step → Outcome AttestationReceipt
  | .addSignature nodeIndex signatureHex =>
      .ok (receipt.addSignature nodeIndex signatureHex)
  | .send => fromJson receipt.toJson

/-- Steps in turn. -/
def run (receipt : AttestationReceipt) :
    List Step → Outcome AttestationReceipt
  | [] => .ok receipt
  | first :: rest => do
      let next ← receipt.step first
      next.run rest

/-- The entries that the steps add. -/
def added (steps : List Step) : List (UInt32 × String) :=
  steps.filterMap fun
    | .addSignature nodeIndex signatureHex => some (nodeIndex, signatureHex)
    | .send => none

variable [LawfulFloatFormat] {Restored : F64 → Prop}

theorem fromJson_toJson (hreads : ReadsBack Restored)
    (receipt : AttestationReceipt) : fromJson receipt.toJson = .ok receipt := by
  have hread := PlainSerde.fromText_toText hreads receipt
  change (SerdeJsonText.syntaxTree receipt.toJson).bind
    AttestationReceipt.decode = some receipt at hread
  rw [fromJson, hread]

/-- A run appends its entries and changes nothing else. -/
theorem run_eq (hreads : ReadsBack Restored) (receipt : AttestationReceipt)
    (steps : List Step) :
    receipt.run steps = .ok { receipt with
      nodeSignatures := receipt.nodeSignatures ++ added steps } := by
  induction steps generalizing receipt with
  | nil => simp [run, added]
  | cons first rest ih =>
      cases first with
      | addSignature nodeIndex signatureHex =>
          have hstep : receipt.step (.addSignature nodeIndex signatureHex) =
              .ok (receipt.addSignature nodeIndex signatureHex) := rfl
          rw [run, hstep, ok_bind, ih]
          simp [added, addSignature]
      | send =>
          have hstep : receipt.step .send = .ok receipt :=
            fromJson_toJson hreads receipt
          rw [run, hstep, ok_bind, ih]
          rfl

end AttestationReceipt

section Signatures

variable {P : Type} [EdwardsGroup P] [DecidableEq P] [Sha512]

/-- A signature of one message is one of another exactly when the challenges
agree, unless the key is that of the secret zero. -/
theorem verify_other_iff {signature : ThresholdSignature P} {secret : Scalar}
    {message : Bytes}
    (hverify : verify signature (basepointMul secret : P) message = .ok ⟨⟩)
    (other : Bytes) :
    verify signature (basepointMul secret : P) other = .ok ⟨⟩ ↔
      secret = 0 ∨
        computeChallenge signature.r (basepointMul secret : P) other =
          computeChallenge signature.r (basepointMul secret : P) message := by
  rw [verify_eq_ok_iff, pointMul_basepointMul] at hverify ⊢
  rw [hverify, add_right_inj, basepointMul_injective.eq_iff,
    mul_eq_mul_left_iff]
  exact or_comm.trans (or_congr_right eq_comm)

variable [FloatFormat] [LawfulFloatFormat] [SerdeJsonText]
  {Restored : F64 → Prop}

omit [DecidableEq P] [Sha512] in
theorem reportsValid_of_entry (hreads : ReadsBack Restored)
    {receipt : AttestationReceipt}
    (hne : receipt.nodeSignatures ≠ []) : ReportsValid receipt.toJson :=
  (reportsValid_iff _).mpr ⟨receipt,
    AttestationReceipt.fromJson_toJson hreads receipt,
    receipt.verifySignatures_iff.mpr hne⟩

/-- A quorum signs a receipt at any moment of its life, whatever entries were
added before and are added after, and however often it is sent.  Its last holder
has the statement as it was made; the command reports it valid, and rightly so,
for it carries a signature under the key of the quorum.  That is a signature of
a changed receipt exactly if the challenges coincide or the key is that of the
secret zero. -/
theorem signed_receipt_carries_signature (hreads : ReadsBack Restored)
    {config : ThresholdConfig} (hvalid : config.Valid)
    {shares : List (KeyShare P)} (hshares : KeyLifecycle config shares)
    (participants : List (KeyShare P × Rng))
    (hmem : ∀ participant ∈ participants, participant.1 ∈ shares)
    (hnodup : (participants.map fun participant =>
      participant.1.index).Nodup)
    (hcount : config.threshold.toNat ≤ participants.length)
    (receipt : AttestationReceipt) (before after : List AttestationReceipt.Step)
    (nodeIndex : UInt32) :
    ∃ (signature : ThresholdSignature P) (final : AttestationReceipt),
      signSession (freshSigners participants) receipt.signingBytes =
        .ok signature ∧
      receipt.run (before ++
          .addSignature nodeIndex (hexEncode signature.toBytes) :: after) =
        .ok final ∧
      final.SameStatement receipt ∧ ReportsValid final.toJson ∧
      ∀ share ∈ shares, final.CarriesSignature share.groupPublicKey ∧
        ∀ changed : AttestationReceipt,
          verify signature share.groupPublicKey changed.signingBytes = .ok ⟨⟩ ↔
            share.groupPublicKey = 0 ∨
              computeChallenge signature.r share.groupPublicKey
                  changed.signingBytes =
                computeChallenge signature.r share.groupPublicKey
                  receipt.signingBytes := by
  obtain ⟨F, hdegree, hsharing, -⟩ := hshares.exists_isSharing hvalid
  have hindices : signerIndices (freshSigners participants) =
      participants.map fun participant => participant.1.index := by
    rw [signerIndices, freshSigners, List.map_map]
    rfl
  have hfresh : ∀ signer ∈ freshSigners participants,
      signer.keyShare ∈ shares ∧
        signer.nonce.index = signer.keyShare.index := by
    intro signer hsigner
    obtain ⟨participant, hparticipant, rfl⟩ := List.mem_map.mp hsigner
    exact ⟨hmem participant hparticipant, rfl⟩
  have henough : F.degree < (freshSigners participants).length := by
    rw [freshSigners, List.length_map]
    exact lt_of_lt_of_le hdegree (by exact_mod_cast hcount)
  obtain ⟨signature, hsession, hverify⟩ := hsharing.signs
    (fun signer hsigner => (hfresh signer hsigner).1)
    (fun signer hsigner => (hfresh signer hsigner).2)
    (by rwa [hindices]) henough receipt.signingBytes
  -- the entry stands behind those of before, and others behind it
  let entry := (nodeIndex, hexEncode signature.toBytes)
  have hrun := AttestationReceipt.run_eq hreads receipt (before ++
    .addSignature nodeIndex (hexEncode signature.toBytes) :: after)
  have hentry : entry ∈ receipt.nodeSignatures ++
      AttestationReceipt.added (before ++
        .addSignature nodeIndex (hexEncode signature.toBytes) :: after) := by
    apply List.mem_append_right
    rw [AttestationReceipt.added, List.filterMap_append]
    exact List.mem_append_right _ List.mem_cons_self
  refine ⟨signature, _, hsession, hrun, ⟨rfl, rfl, rfl, rfl⟩,
    reportsValid_of_entry hreads (List.ne_nil_of_mem hentry), ?_⟩
  intro share hshare
  rw [hsharing.groupPublicKey_eq share hshare]
  refine ⟨⟨entry, hentry, signature, toLower_hexEncode _, hverify⟩, ?_⟩
  intro changed
  rw [verify_other_iff hverify]
  apply or_congr_left
  rw [← basepointMul_zero, basepointMul_injective.eq_iff]

omit [EdwardsGroup P] [DecidableEq P] [Sha512] [FloatFormat]
  [LawfulFloatFormat] [SerdeJsonText] in
/-- Participants 3 and 1 of a generated 2-of-3 sharing sign a receipt that was
sent with another entry, and it is sent on. -/
theorem signed_receipt_carries_signature_two_of_three :
    letI := sha512Reference
    letI := JsonReference.floatFormat
    letI := JsonReference.serdeJsonText
    let receipt : AttestationReceipt :=
      ⟨"Qm_transfer", "aabb", "ccdd", 1000, []⟩
    ∃ (signature : ThresholdSignature ReferencePoint)
      (final : AttestationReceipt),
      receipt.run
          [.addSignature 2 "eeff0011", .send,
            .addSignature 0 (hexEncode signature.toBytes), .send] =
        .ok final ∧
      final.SameStatement receipt ∧ ReportsValid final.toJson ∧
      ∀ share ∈ linearShares 3 3,
        final.CarriesSignature share.groupPublicKey := by
  let _ := sha512Reference
  let _ := JsonReference.floatFormat
  let _ := JsonReference.serdeJson
  let _ := JsonReference.serdeJsonText
  have _ := JsonReference.lawfulFloatFormat
  have _ := JsonReference.lawfulSerdeJson
  intro receipt
  have hvalid : ThresholdConfig.Valid ⟨2, 3⟩ := by
    constructor
    · decide
    · decide
  obtain ⟨rng', hgenerated⟩ := runDkg_unitRng
  obtain ⟨signature, final, -, hrun, hsame, hreported, hcarries⟩ :=
    signed_receipt_carries_signature readsBack_of_lawful hvalid
      (.generated hgenerated)
      [(linearShare 3 3 3, unitRng), (linearShare 3 3 1, unitRng)]
      (by
        intro participant hparticipant
        fin_cases hparticipant
        · exact linearShare_mem 3 3 (by decide) (by decide)
        · exact linearShare_mem 3 3 (by decide) (by decide))
      (by decide) (by decide) receipt [.addSignature 2 "eeff0011", .send]
      [.send] 0
  exact ⟨signature, final, hrun, hsame, hreported,
    fun share hshare => (hcarries share hshare).1⟩

end Signatures

end CraftSec
