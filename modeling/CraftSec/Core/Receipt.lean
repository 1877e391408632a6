/-
Attestation receipts and execution attestations: what is signed for them, and
how a receipt is made or read from JSON.
-/
import CraftSec.Core.Decode

namespace CraftSec

/-- sha2's `Sha256::digest`. -/
class Sha256 where
  digest : Bytes → Vector UInt8 32

/-- `timestamp.to_le_bytes()`. -/
def u64LeBytes (n : UInt64) : Bytes :=
  leBytes 8 n.toNat

/-- A signed attestation receipt. -/
structure AttestationReceipt where
  programCid : String
  argsHash : String
  resultHash : String
  timestamp : UInt64
  nodeSignatures : List (UInt32 × String)
deriving Repr, DecidableEq

namespace AttestationReceipt

/-- `AttestationReceipt::new`. -/
def new [Sha256] (programCid : String) (args result : Bytes)
    (timestamp : UInt64) : AttestationReceipt where
  programCid := programCid
  argsHash := hexEncode (Sha256.digest args).toList
  resultHash := hexEncode (Sha256.digest result).toList
  timestamp := timestamp
  nodeSignatures := []

/-- `AttestationReceipt::signing_bytes`. -/
def signingBytes (receipt : AttestationReceipt) : Bytes :=
  utf8 "CraftSEC-Receipt-v1" ++ utf8 receipt.programCid ++
    utf8 receipt.argsHash ++ utf8 receipt.resultHash ++
    u64LeBytes receipt.timestamp

/-- `AttestationReceipt::add_signature`. -/
def addSignature (receipt : AttestationReceipt) (nodeIndex : UInt32)
    (signatureHex : String) : AttestationReceipt :=
  { receipt with
    nodeSignatures := receipt.nodeSignatures ++ [(nodeIndex, signatureHex)] }

/-- `AttestationReceipt::verify_signatures`. -/
def verifySignatures (receipt : AttestationReceipt) : Bool :=
  !receipt.nodeSignatures.isEmpty

end AttestationReceipt

/-- `ExecutionAttestation::signing_bytes`. -/
def ExecutionAttestation.signingBytes (programCid : String)
    (inputHash outputHash : Vector UInt8 32) (timestampMs : UInt64) : Bytes :=
  utf8 "CraftSEC-ExecAttest-v1" ++ utf8 programCid ++ inputHash.toList ++
    outputHash.toList ++ u64LeBytes timestampMs

/-- What is used of `serde_json::from_str` where it reads into a struct: the
tree of a text, with the members of an object as they are written, and the text
of the error for a text that holds no receipt. -/
class SerdeJsonText where
  syntaxTree : String → Option Json
  receiptError : String → String

namespace Json

/-- A field of a struct that is read from a text, where a repeated member is an
error. -/
def textField (value : Json) (count i : ℕ) (key : String) : Option Json :=
  match value with
  | .object members =>
      match members.filter fun member => member.1 == key with
      | [member] => some member.2
      | _ => none
  | .array items => if items.length = count then items[i]? else none
  | _ => none

/-- What a derived deserializer takes for a `u32`. -/
def decodeU32 : Json → Option UInt32
  | .number (.posInt n) =>
      if n.toNat < 2 ^ 32 then some n.toUInt32 else none
  | _ => none

/-- What a derived deserializer takes for a `(u32, String)`. -/
def decodeSignature : Json → Option (UInt32 × String)
  | .array [index, signature] => do
      return (← index.decodeU32, ← signature.asStr)
  | _ => none

/-- What a derived deserializer takes for a `Vec<(u32, String)>`. -/
def decodeSignatures : Json → Option (List (UInt32 × String))
  | .array items => items.mapM decodeSignature
  | _ => none

end Json

/-- The derived `Deserialize` of `AttestationReceipt`. -/
def AttestationReceipt.decode (value : Json) : Option AttestationReceipt := do
  let programCid ← (← value.textField 5 0 "program_cid").asStr
  let argsHash ← (← value.textField 5 1 "args_hash").asStr
  let resultHash ← (← value.textField 5 2 "result_hash").asStr
  let timestamp ← (← value.textField 5 3 "timestamp").decodeU64
  let nodeSignatures ←
    (← value.textField 5 4 "node_signatures").decodeSignatures
  return { programCid, argsHash, resultHash, timestamp, nodeSignatures }

/-- `AttestationReceipt::from_json`. -/
def AttestationReceipt.fromJson [SerdeJsonText] (json : String) :
    Outcome AttestationReceipt :=
  match (SerdeJsonText.syntaxTree json).bind AttestationReceipt.decode with
  | some receipt => .ok receipt
  | none => Outcome.err (.serializationError (SerdeJsonText.receiptError json))

end CraftSec
