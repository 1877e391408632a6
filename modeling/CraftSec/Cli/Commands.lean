/-
The commands of the CLI.  Each process derives the key of the program afresh;
an attestation runs three local nodes with the native transfer validator.
-/
import CraftSec.Cli.VerifyReceipt
import CraftSec.Client.Deployment
import CraftSec.Dkg.Pdk
import CraftSec.Node.TransferValidator

open scoped Polynomial

namespace CraftSec

/-- The commands that clap parses. -/
inductive Commands where
  | deploy (wasmFile : String)
  | attest (programCid argsJson : String)
  | keys (programCid : String)
  | freeze (programCid : String)
  | info (programCid : String)
  | verifyReceipt (receipt : String)
deriving DecidableEq

/-- What a process prints to its standard output before it exits with 0. -/
def CommandOutput.success (lines : List String) : CommandOutput :=
  ⟨lines, [], 0⟩

/-- `eprintln!` and `std::process::exit(1)`. -/
def CommandOutput.failure (message : String) : CommandOutput :=
  ⟨[], [message], 1⟩

section Keys

/-- `compute_cid`. -/
def computeCid [Sha256] (data : Bytes) : String :=
  let hash := hexEncode (Sha256.digest data).toList
  "Qm_" ++ String.ofList (hash.toList.take 16)

variable {P : Type} [EdwardsGroup P]

/-- `hex::encode(point.compress().as_bytes())`. -/
def pointHex (point : P) : String :=
  hexEncode (EdwardsGroup.compress point).toList

variable (P) [Sha512]

/-- `derive_key(program_cid, seed, &config).unwrap()`, where the config is
`ThresholdConfig::new(2, 3).unwrap()`. -/
def deriveCliKey (programCid seed : String) : Outcome (P × List (KeyShare P)) :=
  match ThresholdConfig.new 2 3 with
  | .error _ => Outcome.panic
  | .ok config =>
      match deriveKey programCid seed config with
      | .error _ => Outcome.panic
      | .ok derived => .ok derived

/-- `cmd_deploy`. -/
def cmdDeploy [Sha256] (wasmFile : String) : Outcome CommandOutput := do
  let cid := computeCid (utf8 wasmFile)
  let (gpk, shares) ← deriveCliKey P cid "main"
  return .success
    ["Program deployed:",
     s!"  CID:        {cid}",
     s!"  Public Key: {pointHex gpk}",
     "  Threshold:  2-of-3",
     s!"  Shares:     {shares.length} generated"]

/-- `cmd_keys`. -/
def cmdKeys (programCid : String) : Outcome CommandOutput := do
  let lines ← ["main", "escrow", "treasury"].mapM fun seed => do
    let (gpk, _) ← deriveCliKey P programCid seed
    return s!"  [{seed}] {pointHex gpk}"
  return .success (s!"Derived keys for program {programCid}:" :: lines)

/-- `cmd_info`. -/
def cmdInfo (programCid : String) : Outcome CommandOutput := do
  let (gpk, _) ← deriveCliKey P programCid "main"
  return .success
    ["Program Info:",
     s!"  CID:              {programCid}",
     s!"  Public Key:       {pointHex gpk}",
     "  Threshold:        2-of-3",
     "  Status:           active",
     "  Attestation Count: 0 (stub — no persistent state)"]

end Keys

/-- `cmd_freeze`, which prints and does nothing. -/
def cmdFreeze (programCid : String) : CommandOutput :=
  .success
    [s!"Program frozen: {programCid}",
     "  Future attestation requests will be rejected."]

section Attest

/-- `serde_json::to_string_pretty` of a transaction. -/
def Transaction.pretty [FloatFormat] (tx : Transaction) : String :=
  let members : List (String × Bytes) :=
    [("seq", writeU64 tx.seq),
     ("prev_hash", writeString tx.prevHash),
     ("sender", writeString tx.sender),
     ("recipient", writeString tx.recipient),
     ("amount", writeF64 tx.amount),
     ("asset", writeString tx.asset),
     ("timestamp", writeU64 tx.timestamp),
     ("program_cid", writeString tx.programCid),
     ("user_sig", writeString tx.userSig)]
  let lines := members.map fun member =>
    utf8 "  " ++ writeString member.1 ++ utf8 ": " ++ member.2
  fromUtf8Lossy
    (0x7b :: 0x0a :: List.intercalate [0x2c, 0x0a] lines ++ [0x0a, 0x7d])

variable {P : Type} [EdwardsGroup P]

/-- A node whose only program is the transfer validator. -/
def transferNode (programCid : String) (keyShare : KeyShare P) :
    CraftSecNode ProgramRegistry P :=
  .new keyShare (ProgramRegistry.new.register programCid transferValidator)

/-- The client over three local nodes. -/
def cliClient (programCid : String) (gpk : P) (shares : List (KeyShare P))
    (rng : Rng) : CraftSecClient (LocalTransport ProgramRegistry P) P where
  transport := .new (shares.map (transferNode programCid)) rng
  groupPublicKey := gpk
  threshold := 2
  nodeCount := 3

/-- The request, with the number that was drawn for its id. -/
def cliRequest (programCid : String) (args : Json) (number : UInt32) :
    AttestationRequest where
  programCid := programCid
  requester := "did:cli-user"
  args := args
  requestId := s!"cli-{number}"

/-- What is printed of an attested transaction. -/
def attestedOutput [FloatFormat] (tx : Transaction)
    (signature : ThresholdSignature P) : CommandOutput :=
  .success
    ["Attestation successful:",
     s!"  Transaction: {tx.pretty}",
     s!"  Signature R: {pointHex signature.r}",
     s!"  Signature s: {hexEncode (leBytes 32 signature.s.val)}",
     "  Verified:    true"]

variable (P) [DecidableEq P] [Sha512] [FloatFormat] [SerdeJson]

/-- `cmd_attest`, with the byte source `OsRng` and the number that
`rand::random` draws. -/
def cmdAttest (programCid argsJson : String) (number : UInt32) (rng : Rng) :
    Outcome CommandOutput :=
  match SerdeJson.fromStr argsJson with
  | .error e => .ok (.failure s!"Invalid JSON: {e}")
  | .ok args => do
      let (gpk, shares) ← deriveCliKey P programCid "main"
      match ((cliClient programCid gpk shares rng).attest
          (cliRequest programCid args number)).1 with
      | .error .panic => Outcome.panic
      | .error (.err e) => return .failure s!"Attestation failed: {e.display}"
      | .ok attested =>
          return attestedOutput attested.transaction attested.signature

/-- `main`, after the arguments are parsed. -/
def mainCommand [Sha256] [SerdeJsonText] (number : UInt32) (rng : Rng) :
    Commands → Outcome CommandOutput
  | .deploy wasmFile => cmdDeploy P wasmFile
  | .attest programCid argsJson => cmdAttest P programCid argsJson number rng
  | .keys programCid => cmdKeys P programCid
  | .freeze programCid => .ok (cmdFreeze programCid)
  | .info programCid => cmdInfo P programCid
  | .verifyReceipt receipt => cmdVerifyReceipt receipt

end Attest

end CraftSec
