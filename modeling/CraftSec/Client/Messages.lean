/-
The messages of the system as JSON.  Every serialisable type is read back from
its text, but for transactions with a float that has no decimal form and for
arguments nested deeper than the parser goes.
-/
import CraftSec.Core.JsonReference
import CraftSec.Core.Serde
import CraftSec.Signing.Configuration

namespace CraftSec

section Types

/-- A request for several programs, all of which have to validate. -/
structure MultiAttestationRequest where
  programCids : List String
  requester : String
  args : Json
  requestId : String

/-- The part of a request that goes to one program. -/
def MultiAttestationRequest.individual (request : MultiAttestationRequest)
    (cid : String) : AttestationRequest where
  programCid := cid
  requester := request.requester
  args := request.args
  requestId := s!"{request.requestId}-{cid}"

/-- `MultiAttestationRequest::to_individual_requests`. -/
def MultiAttestationRequest.toIndividualRequests
    (request : MultiAttestationRequest) : List AttestationRequest :=
  request.programCids.map request.individual

/-- Result of multi-program attestation. -/
inductive MultiAttestationResult where
  | valid (transaction : Transaction)
      (programSignatures : List (String × List UInt8))
  | invalid (programCid reason : String)
deriving DecidableEq

/-- An execution attestation with its signature. -/
structure ExecutionAttestation where
  programCid : String
  inputHash : Vector UInt8 32
  outputHash : Vector UInt8 32
  timestampMs : UInt64
  signature : List UInt8
  groupPublicKey : List UInt8
deriving DecidableEq

/-- A program-derived public key. -/
structure ProgramKey where
  programCid : String
  publicKey : List UInt8
deriving DecidableEq

/-- A threshold signature on behalf of a program. -/
structure ProgramSignature where
  programCid : String
  message : List UInt8
  signature : List UInt8
deriving DecidableEq

end Types

section Structs

instance : Serde UInt32 where
  tree n := .number (.posInt n.toUInt64)
  decode := Json.decodeU32
  amounts _ := []
  values _ := []

instance : PlainSerde UInt32 where
  amounts_eq _ := rfl
  values_eq _ := rfl
  survives _ _ := survives_posInt _ _
  decode_tree := decodeU32_toUInt64

instance : Serde ThresholdConfig where
  tree := ThresholdConfig.toValue
  decode := ThresholdConfig.decode
  amounts _ := []
  values _ := []

instance : Serde ProgramSpec where
  tree spec := .object
    [("cid", Serde.tree spec.cid), ("name", Serde.tree spec.name),
     ("version", Serde.tree spec.version),
     ("threshold", Serde.tree spec.threshold)]
  decode := ProgramSpec.decode
  amounts _ := []
  values _ := []

instance : Serde Transaction where
  tree tx := .object
    [("seq", Serde.tree tx.seq), ("prev_hash", Serde.tree tx.prevHash),
     ("sender", Serde.tree tx.sender), ("recipient", Serde.tree tx.recipient),
     ("amount", Serde.tree tx.amount), ("asset", Serde.tree tx.asset),
     ("timestamp", Serde.tree tx.timestamp),
     ("program_cid", Serde.tree tx.programCid),
     ("user_sig", Serde.tree tx.userSig)]
  decode value := do
    let seq ← value.field UInt64 9 0 "seq"
    let prevHash ← value.field String 9 1 "prev_hash"
    let sender ← value.field String 9 2 "sender"
    let recipient ← value.field String 9 3 "recipient"
    let amount ← value.field F64 9 4 "amount"
    let asset ← value.field String 9 5 "asset"
    let timestamp ← value.field UInt64 9 6 "timestamp"
    let programCid ← value.field String 9 7 "program_cid"
    let userSig ← value.field String 9 8 "user_sig"
    return { seq, prevHash, sender, recipient, amount, asset, timestamp,
             programCid, userSig }
  amounts tx := [tx.amount]
  values _ := []

instance : Serde AttestationRequest where
  tree request := .object
    [("program_cid", Serde.tree request.programCid),
     ("requester", Serde.tree request.requester),
     ("args", Serde.tree request.args),
     ("request_id", Serde.tree request.requestId)]
  decode value := do
    let programCid ← value.field String 4 0 "program_cid"
    let requester ← value.field String 4 1 "requester"
    let args ← value.field Json 4 2 "args"
    let requestId ← value.field String 4 3 "request_id"
    return { programCid, requester, args, requestId }
  amounts _ := []
  values request := [request.args]

instance : Serde MultiAttestationRequest where
  tree request := .object
    [("program_cids", Serde.tree request.programCids),
     ("requester", Serde.tree request.requester),
     ("args", Serde.tree request.args),
     ("request_id", Serde.tree request.requestId)]
  decode value := do
    let programCids ← value.field (List String) 4 0 "program_cids"
    let requester ← value.field String 4 1 "requester"
    let args ← value.field Json 4 2 "args"
    let requestId ← value.field String 4 3 "request_id"
    return { programCids, requester, args, requestId }
  amounts _ := []
  values request := [request.args]

/-- An enumeration is written as an object whose only key names the variant. -/
instance : Serde AttestationResult where
  tree
    | .valid tx => .object [("Valid", Serde.tree tx)]
    | .invalid reason => .object [("Invalid", Serde.tree reason)]
  decode
    | .object [("Valid", content)] => do
        return .valid (← Serde.decode content)
    | .object [("Invalid", content)] => do
        return .invalid (← Serde.decode content)
    | _ => none
  amounts
    | .valid tx => Serde.amounts tx
    | .invalid _ => []
  values _ := []

instance : Serde MultiAttestationResult where
  tree
    | .valid transaction programSignatures => .object
        [("Valid", .object
          [("transaction", Serde.tree transaction),
           ("program_signatures", Serde.tree programSignatures)])]
    | .invalid programCid reason => .object
        [("Invalid", .object
          [("program_cid", Serde.tree programCid),
           ("reason", Serde.tree reason)])]
  decode
    | .object [("Valid", content)] => do
        let transaction ← content.field Transaction 2 0 "transaction"
        let programSignatures ←
          content.field (List (String × List UInt8)) 2 1 "program_signatures"
        return .valid transaction programSignatures
    | .object [("Invalid", content)] => do
        let programCid ← content.field String 2 0 "program_cid"
        let reason ← content.field String 2 1 "reason"
        return .invalid programCid reason
    | _ => none
  amounts
    | .valid transaction _ => Serde.amounts transaction
    | .invalid _ _ => []
  values _ := []

instance : Serde AttestationReceipt where
  tree receipt := .object
    [("program_cid", Serde.tree receipt.programCid),
     ("args_hash", Serde.tree receipt.argsHash),
     ("result_hash", Serde.tree receipt.resultHash),
     ("timestamp", Serde.tree receipt.timestamp),
     ("node_signatures", Serde.tree receipt.nodeSignatures)]
  decode := AttestationReceipt.decode
  amounts _ := []
  values _ := []

instance : Serde ExecutionAttestation where
  tree attestation := .object
    [("program_cid", Serde.tree attestation.programCid),
     ("input_hash", Serde.tree attestation.inputHash),
     ("output_hash", Serde.tree attestation.outputHash),
     ("timestamp_ms", Serde.tree attestation.timestampMs),
     ("signature", Serde.tree attestation.signature),
     ("group_public_key", Serde.tree attestation.groupPublicKey)]
  decode value := do
    let programCid ← value.field String 6 0 "program_cid"
    let inputHash ← value.field (Vector UInt8 32) 6 1 "input_hash"
    let outputHash ← value.field (Vector UInt8 32) 6 2 "output_hash"
    let timestampMs ← value.field UInt64 6 3 "timestamp_ms"
    let signature ← value.field (List UInt8) 6 4 "signature"
    let groupPublicKey ← value.field (List UInt8) 6 5 "group_public_key"
    return { programCid, inputHash, outputHash, timestampMs, signature,
             groupPublicKey }
  amounts _ := []
  values _ := []

instance : Serde ProgramKey where
  tree key := .object
    [("program_cid", Serde.tree key.programCid),
     ("public_key", Serde.tree key.publicKey)]
  decode value := do
    let programCid ← value.field String 2 0 "program_cid"
    let publicKey ← value.field (List UInt8) 2 1 "public_key"
    return { programCid, publicKey }
  amounts _ := []
  values _ := []

instance : Serde ProgramSignature where
  tree signature := .object
    [("program_cid", Serde.tree signature.programCid),
     ("message", Serde.tree signature.message),
     ("signature", Serde.tree signature.signature)]
  decode value := do
    let programCid ← value.field String 3 0 "program_cid"
    let message ← value.field (List UInt8) 3 1 "message"
    let signature ← value.field (List UInt8) 3 2 "signature"
    return { programCid, message, signature }
  amounts _ := []
  values _ := []

end Structs

section Plain

instance : PlainSerde ThresholdConfig where
  amounts_eq _ := rfl
  values_eq _ := rfl
  survives Restored config := by
    apply Json.survives_object_iff.mpr
    rw [List.forall_mem_cons, List.forall_mem_singleton]
    exact ⟨survives_posInt _ _, survives_posInt _ _⟩
  decode_tree := ThresholdConfig.decode_toValue

instance : PlainSerde ProgramSpec where
  amounts_eq _ := rfl
  values_eq _ := rfl
  survives Restored spec := by
    apply Json.survives_object_iff.mpr
    simp [PlainSerde.survives]
  decode_tree spec := by
    have hthreshold : (Serde.tree spec).textField 4 3 "threshold" =
        some spec.threshold.toValue := rfl
    change ProgramSpec.decode (Serde.tree spec) = some spec
    rw [ProgramSpec.decode, hthreshold]
    simp only [Option.bind_eq_bind, Option.bind_some,
      ThresholdConfig.decode_toValue]
    rfl

/-- The signatures of a receipt are read like any list of pairs. -/
theorem decodeSignatures_tree (signatures : List (UInt32 × String)) :
    (Serde.tree signatures).decodeSignatures = some signatures := by
  rw [← PlainSerde.decode_tree signatures]
  rfl

instance : PlainSerde AttestationReceipt where
  amounts_eq _ := rfl
  values_eq _ := rfl
  survives Restored receipt := by
    apply Json.survives_object_iff.mpr
    simp [PlainSerde.survives]
  decode_tree receipt := by
    have hsignatures : (Serde.tree receipt).textField 5 4 "node_signatures" =
        some (Serde.tree receipt.nodeSignatures) := rfl
    change AttestationReceipt.decode (Serde.tree receipt) = some receipt
    rw [AttestationReceipt.decode, hsignatures]
    simp only [Option.bind_eq_bind, Option.bind_some, decodeSignatures_tree]
    rfl

instance : PlainSerde ExecutionAttestation where
  amounts_eq _ := rfl
  values_eq _ := rfl
  survives Restored attestation := by
    apply Json.survives_object_iff.mpr
    simp [PlainSerde.survives]
  decode_tree attestation := by
    have hinput : (Serde.tree attestation).field (Vector UInt8 32) 6 1
        "input_hash" = some attestation.inputHash :=
      PlainSerde.decode_tree attestation.inputHash
    have houtput : (Serde.tree attestation).field (Vector UInt8 32) 6 2
        "output_hash" = some attestation.outputHash :=
      PlainSerde.decode_tree attestation.outputHash
    have hsignature : (Serde.tree attestation).field (List UInt8) 6 4
        "signature" = some attestation.signature :=
      PlainSerde.decode_tree attestation.signature
    have hkey : (Serde.tree attestation).field (List UInt8) 6 5
        "group_public_key" = some attestation.groupPublicKey :=
      PlainSerde.decode_tree attestation.groupPublicKey
    simp only [Serde.decode, hinput, houtput, hsignature, hkey]
    rfl

instance : PlainSerde ProgramKey where
  amounts_eq _ := rfl
  values_eq _ := rfl
  survives Restored key := by
    apply Json.survives_object_iff.mpr
    simp [PlainSerde.survives]
  decode_tree key := by
    have hkey : (Serde.tree key).field (List UInt8) 2 1 "public_key" =
        some key.publicKey := PlainSerde.decode_tree key.publicKey
    simp only [Serde.decode, hkey]
    rfl

instance : PlainSerde ProgramSignature where
  amounts_eq _ := rfl
  values_eq _ := rfl
  survives Restored signature := by
    apply Json.survives_object_iff.mpr
    simp [PlainSerde.survives]
  decode_tree signature := by
    have hmessage : (Serde.tree signature).field (List UInt8) 3 1 "message" =
        some signature.message := PlainSerde.decode_tree signature.message
    have hsignature : (Serde.tree signature).field (List UInt8) 3 2
        "signature" = some signature.signature :=
      PlainSerde.decode_tree signature.signature
    simp only [Serde.decode, hmessage, hsignature]
    rfl

end Plain

section Lawful

/-- Whether a transaction is read back is up to its amount. -/
theorem decode_transaction (tx : Transaction) :
    Serde.decode (Serde.tree tx) =
      (Serde.decode (Serde.tree tx.amount)).map fun amount =>
        { tx with amount } := by
  have hamount : (Serde.tree tx).field F64 9 4 "amount" =
      Serde.decode (Serde.tree tx.amount) := rfl
  cases hread : Serde.decode (A := F64) (Serde.tree tx.amount) with
  | none =>
      rw [hread] at hamount
      simp only [Serde.decode, hamount]
      rfl
  | some amount =>
      rw [hread] at hamount
      simp only [Serde.decode, hamount]
      rfl

instance : LawfulSerde Transaction where
  survives {Restored tx} hsend := by
    have hamount := LawfulSerde.survives (a := tx.amount) hsend
    apply Json.survives_object_iff.mpr
    simp [PlainSerde.survives, hamount]
  decode_tree {Restored tx} hsend := by
    have hread := LawfulSerde.decode_tree (a := tx.amount) hsend
    rw [decode_transaction]
    exact hread.map Iff.rfl

/-- Whether a request is read back is up to its arguments. -/
theorem decode_request (request : AttestationRequest) :
    Serde.decode (Serde.tree request) =
      (Serde.decode (Serde.tree request.args)).map fun args =>
        { request with args } := by
  have hargs : (Serde.tree request).field Json 4 2 "args" =
      Serde.decode (Serde.tree request.args) := rfl
  cases hread : Serde.decode (A := Json) (Serde.tree request.args) with
  | none =>
      rw [hread] at hargs
      simp only [Serde.decode, hargs]
      rfl
  | some args =>
      rw [hread] at hargs
      simp only [Serde.decode, hargs]
      rfl

instance : LawfulSerde AttestationRequest where
  survives {Restored request} hsend := by
    have hargs := LawfulSerde.survives (a := request.args) hsend
    apply Json.survives_object_iff.mpr
    simp [PlainSerde.survives, hargs]
  decode_tree {Restored request} hsend := by
    have hread := LawfulSerde.decode_tree (a := request.args) hsend
    rw [decode_request]
    exact hread.map Iff.rfl

theorem decode_multiRequest (request : MultiAttestationRequest) :
    Serde.decode (Serde.tree request) =
      (Serde.decode (Serde.tree request.args)).map fun args =>
        { request with args } := by
  have hcids : (Serde.tree request).field (List String) 4 0 "program_cids" =
      some request.programCids := PlainSerde.decode_tree request.programCids
  have hargs : (Serde.tree request).field Json 4 2 "args" =
      Serde.decode (Serde.tree request.args) := rfl
  cases hread : Serde.decode (A := Json) (Serde.tree request.args) with
  | none =>
      rw [hread] at hargs
      simp only [Serde.decode, hcids, hargs]
      rfl
  | some args =>
      rw [hread] at hargs
      simp only [Serde.decode, hcids, hargs]
      rfl

instance : LawfulSerde MultiAttestationRequest where
  survives {Restored request} hsend := by
    have hargs := LawfulSerde.survives (a := request.args) hsend
    apply Json.survives_object_iff.mpr
    simp [PlainSerde.survives, hargs]
  decode_tree {Restored request} hsend := by
    have hread := LawfulSerde.decode_tree (a := request.args) hsend
    rw [decode_multiRequest]
    exact hread.map Iff.rfl

/-- The variant with a transaction stands and falls with the transaction. -/
theorem decode_valid (tx : Transaction) :
    Serde.decode (Serde.tree (AttestationResult.valid tx)) =
      (Serde.decode (Serde.tree tx)).map AttestationResult.valid := by
  have hvalid : Serde.decode (Serde.tree (AttestationResult.valid tx)) =
      (Serde.decode (Serde.tree tx)).bind fun other =>
        some (AttestationResult.valid other) := rfl
  rw [hvalid, Option.map_eq_bind]
  rfl

instance : LawfulSerde AttestationResult where
  survives {Restored result} hsend := by
    cases result with
    | valid tx =>
        apply Json.survives_object_iff.mpr
        rw [List.forall_mem_singleton]
        exact LawfulSerde.survives (a := tx) hsend
    | invalid reason =>
        apply Json.survives_object_iff.mpr
        rw [List.forall_mem_singleton]
        exact PlainSerde.survives Restored reason
  decode_tree {Restored result} hsend := by
    cases result with
    | valid tx =>
        have hread := LawfulSerde.decode_tree (a := tx) hsend
        rw [decode_valid]
        exact hread.map Iff.rfl
    | invalid reason => exact .of_fits (fits_of_none rfl rfl)

theorem decode_multiValid (tx : Transaction)
    (signatures : List (String × List UInt8)) :
    Serde.decode (Serde.tree (MultiAttestationResult.valid tx signatures)) =
      (Serde.decode (Serde.tree tx)).map fun other =>
        MultiAttestationResult.valid other signatures := by
  let content := Json.object
    [("transaction", Serde.tree tx),
     ("program_signatures", Serde.tree signatures)]
  have hsignatures : content.field (List (String × List UInt8)) 2 1
      "program_signatures" = some signatures :=
    PlainSerde.decode_tree signatures
  have hvalid : Serde.decode
      (Serde.tree (MultiAttestationResult.valid tx signatures)) =
      (Serde.decode (Serde.tree tx)).bind fun other =>
        (content.field (List (String × List UInt8)) 2 1
          "program_signatures").bind fun read =>
            some (MultiAttestationResult.valid other read) := rfl
  rw [hvalid, hsignatures, Option.map_eq_bind]
  rfl

instance : LawfulSerde MultiAttestationResult where
  survives {Restored result} hsend := by
    cases result with
    | valid tx signatures =>
        have htx := LawfulSerde.survives (a := tx) hsend
        apply Json.survives_object_iff.mpr
        rw [List.forall_mem_singleton]
        apply Json.survives_object_iff.mpr
        simp [PlainSerde.survives, htx]
    | invalid programCid reason =>
        apply Json.survives_object_iff.mpr
        rw [List.forall_mem_singleton]
        apply Json.survives_object_iff.mpr
        simp [PlainSerde.survives]
  decode_tree {Restored result} hsend := by
    cases result with
    | valid tx signatures =>
        have hread := LawfulSerde.decode_tree (a := tx) hsend
        rw [decode_multiValid]
        exact hread.map Iff.rfl
    | invalid programCid reason => exact .of_fits (fits_of_none rfl rfl)

end Lawful

section ReadBack

variable [FloatFormat] [LawfulFloatFormat] [SerdeJsonText]
  {Restored : F64 → Prop}

/-- A request for several programs arrives exactly when the requests that it is
split into do. -/
theorem read_individual_requests_iff (hreads : ReadsBack Restored)
    {request : MultiAttestationRequest} (hsend : Sendable Restored request)
    (hne : request.programCids ≠ []) :
    fromText MultiAttestationRequest (toText request) = some request ↔
      ∀ own ∈ request.toIndividualRequests,
        fromText AttestationRequest (toText own) = some own := by
  have hown : ∀ cid, fromText AttestationRequest
      (toText (request.individual cid)) = some (request.individual cid) ↔
        Fits request := by
    intro cid
    have hread := readBack hreads (request.individual cid) hsend
    exact (hread _).trans (and_iff_left rfl)
  rw [readBack hreads _ hsend, and_iff_left rfl,
    MultiAttestationRequest.toIndividualRequests, List.forall_mem_map]
  constructor
  · intro hfits cid _
    exact (hown cid).mpr hfits
  · intro hall
    obtain ⟨cid, hcid⟩ := List.exists_mem_of_ne_nil _ hne
    exact (hown cid).mp (hall cid hcid)

/-- Every message is read back from its JSON unchanged or not at all.  It is
not read exactly when it holds a transaction whose amount has no decimal form,
or arguments nested deeper than the parser goes; splitting a request for
several programs changes nothing about that. -/
theorem messages_read_back (hreads : ReadsBack Restored) :
    ReadBack ThresholdConfig Restored ∧ ReadBack ProgramSpec Restored ∧
    ReadBack Transaction Restored ∧ ReadBack AttestationRequest Restored ∧
    ReadBack MultiAttestationRequest Restored ∧
    ReadBack AttestationResult Restored ∧
    ReadBack MultiAttestationResult Restored ∧
    ReadBack AttestationReceipt Restored ∧
    ReadBack ExecutionAttestation Restored ∧
    ReadBack ProgramKey Restored ∧ ReadBack ProgramSignature Restored ∧
    ∀ request : MultiAttestationRequest, Sendable Restored request →
      request.programCids ≠ [] →
      (fromText MultiAttestationRequest (toText request) = some request ↔
        ∀ own ∈ request.toIndividualRequests,
          fromText AttestationRequest (toText own) = some own) :=
  ⟨readBack hreads, readBack hreads, readBack hreads, readBack hreads,
    readBack hreads, readBack hreads, readBack hreads, readBack hreads,
    readBack hreads, readBack hreads, readBack hreads,
    fun _ => read_individual_requests_iff hreads⟩

omit [FloatFormat] [LawfulFloatFormat] [SerdeJsonText] in
/-- With a parser that restores every float, a result that approves half a unit
is read back, and one that approves an infinite amount is not. -/
theorem messages_read_back_amounts :
    letI := JsonReference.floatFormat
    letI := JsonReference.serdeJsonText
    let result (amount : F64) := AttestationResult.valid ⟨1, "0000",
      "did:alice", "did:bob", amount, "USDC", 1000, "Qm_transfer", "ab"⟩
    fromText AttestationResult (toText (result ⟨0x3fe0000000000000⟩)) =
        some (result ⟨0x3fe0000000000000⟩) ∧
      fromText AttestationResult (toText (result ⟨0x7ff0000000000000⟩)) =
        none := by
  let _ := JsonReference.floatFormat
  let _ := JsonReference.serdeJson
  let _ := JsonReference.serdeJsonText
  have _ := JsonReference.lawfulFloatFormat
  have _ := JsonReference.lawfulSerdeJson
  intro result
  obtain ⟨-, -, -, -, -, hread, -⟩ := messages_read_back readsBack_of_lawful
  have hsend : ∀ amount, Sendable (fun _ => True) (result amount) := fun _ =>
    ⟨fun _ _ _ => trivial, fun _ hnone => absurd hnone List.not_mem_nil⟩
  constructor
  · refine (hread _ (hsend _) _).mpr ⟨⟨fun x hx => ?_, fun _ hnone => ?_⟩, rfl⟩
    · rw [List.mem_singleton.mp hx]
      decide
    · exact absurd hnone List.not_mem_nil
  · rw [Option.eq_none_iff_forall_ne_some]
    intro other hother
    have hfits := ((hread _ (hsend _) _).mp hother).1
    have hfinite := hfits.1 _ List.mem_cons_self
    exact absurd hfinite (by decide)

end ReadBack

end CraftSec
