/-
The command that checks a receipt.  It reports a receipt as valid when there is
any signature in it, so the verdict says nothing about the statement, the key
or the signature.
-/
import CraftSec.Core.SigningBytes
import CraftSec.Signing.Frost

namespace CraftSec

/-- What a command prints, and how it exits. -/
structure CommandOutput where
  stdout : List String
  stderr : List String
  exitCode : ℕ
deriving Repr, DecidableEq

/-- `cmd_verify_receipt`. -/
def cmdVerifyReceipt [SerdeJsonText] (receiptJson : String) :
    Except Abort CommandOutput :=
  match AttestationReceipt.fromJson receiptJson with
  | .ok receipt =>
      .ok
        { stdout :=
            ["Receipt:",
             s!"  Program:    {receipt.programCid}",
             s!"  Args Hash:  {receipt.argsHash}",
             s!"  Result Hash:{receipt.resultHash}",
             s!"  Timestamp:  {receipt.timestamp}",
             s!"  Signatures: {receipt.nodeSignatures.length}",
             if receipt.verifySignatures then "  Status:     VALID"
             else "  Status:     INVALID (no signatures)"]
          stderr := []
          exitCode := 0 }
  | .error (.err error) =>
      .ok
        { stdout := []
          stderr := [s!"Invalid receipt: {error.display}"]
          exitCode := 1 }
  | .error .panic => .error .panic

/-- The command prints its verdict last. -/
def ReportsValid [SerdeJsonText] (receiptJson : String) : Prop :=
  ∃ output, cmdVerifyReceipt receiptJson = .ok output ∧
    output.stdout.getLast? = some "  Status:     VALID"

theorem AttestationReceipt.verifySignatures_iff (receipt : AttestationReceipt) :
    receipt.verifySignatures = true ↔ receipt.nodeSignatures ≠ [] := by
  rw [verifySignatures, Bool.not_eq_true', List.isEmpty_eq_false_iff]

theorem reportsValid_iff [SerdeJsonText] (receiptJson : String) :
    ReportsValid receiptJson ↔
      ∃ receipt, AttestationReceipt.fromJson receiptJson = .ok receipt ∧
        receipt.verifySignatures = true := by
  rw [ReportsValid, cmdVerifyReceipt]
  cases hjson : AttestationReceipt.fromJson receiptJson with
  | ok receipt =>
      simp only [Except.ok.injEq, exists_eq_left', List.getLast?_cons_cons,
        List.getLast?_singleton, Option.some.injEq]
      cases receipt.verifySignatures with
      | true => simp
      | false => simp
  | error abort =>
      cases abort with
      | err error => simp
      | panic => simp

section Signatures

variable {P : Type} [EdwardsGroup P]

/-- A signature as the nodes put it into a receipt, before it is written in
hexadecimal. -/
def ThresholdSignature.toBytes (signature : ThresholdSignature P) : Bytes :=
  (EdwardsGroup.compress signature.r).toList ++ leBytes 32 signature.s.val

variable [Sha512] [DecidableEq P]

/-- An entry of the receipt spells, in either case of letters, a signature of
its signing bytes. -/
def AttestationReceipt.CarriesSignature (receipt : AttestationReceipt)
    (publicKey : P) : Prop :=
  ∃ entry ∈ receipt.nodeSignatures, ∃ signature : ThresholdSignature P,
    entry.2.toLower = hexEncode signature.toBytes ∧
      verify signature publicKey receipt.signingBytes = .ok ⟨⟩

/-- A signature in the receipt has the same challenge for the changed one. -/
def AttestationReceipt.ChallengeCoincides (receipt changed : AttestationReceipt)
    (publicKey : P) : Prop :=
  ∃ entry ∈ receipt.nodeSignatures, ∃ signature : ThresholdSignature P,
    entry.2.toLower = hexEncode signature.toBytes ∧
      computeChallenge signature.r publicKey receipt.signingBytes =
        computeChallenge signature.r publicKey changed.signingBytes

/-- What acceptance should mean: the receipt carries a signature, and a changed
receipt with the same signatures is rejected unless a challenge coincides. -/
structure AttestationReceipt.AcceptedRightly (receipt : AttestationReceipt)
    (publicKey : P) (changed : AttestationReceipt) : Prop where
  carries : receipt.verifySignatures = true →
    receipt.CarriesSignature publicKey
  rejects : receipt.verifySignatures = true →
    changed.verifySignatures = false ∨
      receipt.ChallengeCoincides changed publicKey

/-- A receipt is accepted rightly exactly when it is not accepted, for want of
signatures, or carries a signature with a coinciding challenge. -/
theorem AttestationReceipt.acceptedRightly_iff
    {receipt changed : AttestationReceipt} (publicKey : P)
    (hsame : changed.nodeSignatures = receipt.nodeSignatures) :
    receipt.AcceptedRightly publicKey changed ↔
      receipt.nodeSignatures = [] ∨ receipt.CarriesSignature publicKey ∧
        receipt.ChallengeCoincides changed publicKey := by
  have haccepted := receipt.verifySignatures_iff
  have hchanged : changed.verifySignatures = receipt.verifySignatures := by
    rw [verifySignatures, hsame]
    rfl
  constructor
  · rintro ⟨hcarries, hrejects⟩
    rw [or_iff_not_imp_left, ← ne_eq, ← haccepted]
    intro hvalid
    refine ⟨hcarries hvalid, (hrejects hvalid).resolve_left ?_⟩
    rw [hchanged, hvalid]
    decide
  · rintro (hempty | ⟨hcarries, hcoincides⟩)
    · exact ⟨fun hvalid => absurd hempty (haccepted.mp hvalid),
        fun hvalid => absurd hempty (haccepted.mp hvalid)⟩
    · exact ⟨fun _ => hcarries, fun _ => Or.inr hcoincides⟩

/-- Exactly which receipts, and which texts given to the command, are reported
valid rightly. -/
theorem receipt_valid_iff [SerdeJsonText] (publicKey : P) :
    (∀ receipt : AttestationReceipt,
      (receipt.verifySignatures = true →
          receipt.CarriesSignature publicKey) ↔
        receipt.nodeSignatures = [] ∨ receipt.CarriesSignature publicKey) ∧
    (∀ receipt changed : AttestationReceipt,
      changed.nodeSignatures = receipt.nodeSignatures →
      (receipt.AcceptedRightly publicKey changed ↔
        receipt.nodeSignatures = [] ∨ receipt.CarriesSignature publicKey ∧
          receipt.ChallengeCoincides changed publicKey)) ∧
    ∀ receiptJson,
      (ReportsValid receiptJson → ∃ receipt,
          AttestationReceipt.fromJson receiptJson = .ok receipt ∧
            receipt.CarriesSignature publicKey) ↔
        ∀ receipt, AttestationReceipt.fromJson receiptJson = .ok receipt →
          receipt.nodeSignatures = [] ∨
            receipt.CarriesSignature publicKey := by
  have hreceipt : ∀ receipt : AttestationReceipt,
      (receipt.verifySignatures = true →
          receipt.CarriesSignature publicKey) ↔
        receipt.nodeSignatures = [] ∨
          receipt.CarriesSignature publicKey := by
    intro receipt
    rw [receipt.verifySignatures_iff, ← or_iff_not_imp_left]
  refine ⟨hreceipt, fun receipt changed hsame =>
    AttestationReceipt.acceptedRightly_iff publicKey hsame, ?_⟩
  intro receiptJson
  rw [reportsValid_iff]
  constructor
  · intro hvalid receipt hjson
    rw [← hreceipt]
    intro haccepted
    obtain ⟨other, hother, hcarries⟩ := hvalid ⟨receipt, hjson, haccepted⟩
    rw [hjson] at hother
    cases hother
    exact hcarries
  · rintro hall ⟨receipt, hjson, haccepted⟩
    exact ⟨receipt, hjson, (hreceipt receipt).mpr (hall receipt hjson)
      haccepted⟩

/-- An entry of any other length than a signature's spells none. -/
theorem AttestationReceipt.not_carriesSignature {receipt : AttestationReceipt}
    (publicKey : P) (hlength : ∀ entry ∈ receipt.nodeSignatures,
      entry.2.toLower.length ≠ 128) : ¬ receipt.CarriesSignature publicKey := by
  rintro ⟨entry, hentry, signature, hspelled, -⟩
  apply hlength entry hentry
  rw [hspelled, length_hexEncode, ThresholdSignature.toBytes,
    List.length_append, leBytes_length, Vector.length_toList]

end Signatures

/-- A receipt with one entry, four bytes in hexadecimal. -/
def shortSignatureJson : String :=
  "\x7b\"program_cid\":\"Qm_transfer\",\"args_hash\":\"aabb\"," ++
    "\"result_hash\":\"ccdd\",\"timestamp\":1000," ++
    "\"node_signatures\":[[1,\"aabbccdd\"]]\x7d"

/-- A parser of that text. -/
@[reducible]
def shortSignatureParser : SerdeJsonText where
  syntaxTree text :=
    if text = shortSignatureJson then
      some (.object
        [("program_cid", .string "Qm_transfer"), ("args_hash", .string "aabb"),
         ("result_hash", .string "ccdd"),
         ("timestamp", .number (.posInt 1000)),
         ("node_signatures", .array
           [.array [.number (.posInt 1), .string "aabbccdd"]])])
    else none
  receiptError _ := "expected value at line 1 column 1"

/-- The command reports it valid, for a key that signed nothing. -/
theorem short_signature_reported_valid :
    letI := sha512Reference
    letI := shortSignatureParser
    ReportsValid shortSignatureJson ∧
      ∃ receipt, AttestationReceipt.fromJson shortSignatureJson = .ok receipt ∧
        receipt.verifySignatures = true ∧
        ¬ receipt.CarriesSignature (basepointMul 3 : ReferencePoint) := by
  let _ := sha512Reference
  let _ := shortSignatureParser
  have hjson : AttestationReceipt.fromJson shortSignatureJson =
      .ok ⟨"Qm_transfer", "aabb", "ccdd", 1000, [(1, "aabbccdd")]⟩ := by
    decide +kernel
  refine ⟨(reportsValid_iff _).mpr ⟨_, hjson, rfl⟩, _, hjson, rfl, ?_⟩
  apply AttestationReceipt.not_carriesSignature
  decide +kernel

end CraftSec
