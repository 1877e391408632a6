/-
The transfer validator, twice: the native function over a JSON value, and the
WASM guest, which reads its arguments through a derived deserializer and asks
the database.
-/
import CraftSec.Core.JsonText
import CraftSec.Node.Wasm

namespace CraftSec

namespace F64

/-- The order of the floats that are not NaN; the two zeros are one. -/
def key (x : F64) : ℤ :=
  if x.bits.toNat < 2 ^ 63 then x.bits.toNat else 2 ^ 63 - x.bits.toNat

/-- `x <= y`, which no NaN satisfies. -/
def le (x y : F64) : Bool :=
  !x.isNan && !y.isNan && decide (x.key ≤ y.key)

/-- `x < y`. -/
def lt (x y : F64) : Bool :=
  !x.isNan && !y.isNan && decide (x.key < y.key)

end F64

namespace Json

/-- `Value::as_f64`. -/
def asF64 : Json → Option F64 := decodeF64

/-- `Value::as_u64`. -/
def asU64 : Json → Option UInt64 := decodeU64

end Json

/-- `transfer_validator`. -/
def transferValidator : ValidatorFn := fun request =>
  let args := request.args
  match (args.getOrNull "recipient").asStr with
  | none => .error (.programError "missing recipient")
  | some recipient =>
      match (args.getOrNull "amount").asF64 with
      | none => .error (.programError "missing amount")
      | some amount =>
          -- the floats 0.0 and 1000.0
          let balance :=
            ((args.get "balance").bind Json.asF64).getD ⟨0x408f400000000000⟩
          if amount.le ⟨0⟩ then .ok (.invalid "amount must be positive")
          else if balance.lt amount then .ok (.invalid "insufficient balance")
          else
            .ok (.valid
              { seq := ((args.get "seq").bind Json.asU64).getD 1
                prevHash := ((args.get "prev_hash").bind Json.asStr).getD "0000"
                sender := request.requester
                recipient := recipient
                amount := amount
                asset := ((args.get "asset").bind Json.asStr).getD "USDC"
                timestamp := ((args.get "timestamp").bind Json.asU64).getD 0
                programCid := request.programCid
                userSig :=
                  ((args.get "user_sig").bind Json.asStr).getD "placeholder" })

namespace Json

/-- A field that a struct may leave out, `some none` where it does: a member of
an object that is not repeated, or an item of an array that may be shorter. -/
def optionalField (value : Json) (count i : ℕ) (key : String) :
    Option (Option Json) :=
  match value with
  | .object members =>
      match members.filter fun member => member.1 == key with
      | [] => some none
      | [member] => some (some member.2)
      | _ => none
  | .array items => if items.length ≤ count then some items[i]? else none
  | _ => none

/-- A field with `#[serde(default)]`: what is there has to have its type. -/
def defaultField {A : Type} (value : Json) (count i : ℕ) (key : String)
    (decode : Json → Option A) (default : A) : Option A := do
  match ← value.optionalField count i key with
  | some field => decode field
  | none => some default

/-- What a derived deserializer takes for a `Vec<Value>`. -/
def decodeValues : Json → Option (List Json)
  | .array items => some items
  | _ => none

/-- What a derived deserializer takes for a `Vec<Vec<Value>>`. -/
def decodeRows : Json → Option (List (List Json))
  | .array rows => rows.mapM decodeValues
  | _ => none

end Json

namespace TransferGuest

structure TransferArgs where
  recipient : String
  amount : F64
  seq : UInt64
  prevHash : String
  timestamp : UInt64
  asset : String
  userSig : String
deriving DecidableEq

structure TransferRequest where
  requester : String
  programCid : String
  args : TransferArgs
deriving DecidableEq

def defaultSeq : UInt64 := 1

def defaultPrevHash : String := "0000"

def defaultAsset : String := "USDC"

def defaultUserSig : String := "placeholder"

/-- The derived `Deserialize` of `TransferArgs`.  The last five fields have
defaults, so an array of them may stop early. -/
def TransferArgs.decode (value : Json) : Option TransferArgs := do
  let recipient ← (← (value.optionalField 7 0 "recipient").join).asStr
  let amount ← (← (value.optionalField 7 1 "amount").join).decodeF64
  let seq ← value.defaultField 7 2 "seq" Json.decodeU64 defaultSeq
  let prevHash ← value.defaultField 7 3 "prev_hash" Json.asStr defaultPrevHash
  let timestamp ← value.defaultField 7 4 "timestamp" Json.decodeU64 0
  let asset ← value.defaultField 7 5 "asset" Json.asStr defaultAsset
  let userSig ← value.defaultField 7 6 "user_sig" Json.asStr defaultUserSig
  return { recipient, amount, seq, prevHash, timestamp, asset, userSig }

/-- The derived `Deserialize` of `TransferRequest`. -/
def TransferRequest.decode (value : Json) : Option TransferRequest := do
  let requester ← (← value.textField 3 0 "requester").asStr
  let programCid ← (← value.textField 3 1 "program_cid").asStr
  let args ← TransferArgs.decode (← value.textField 3 2 "args")
  return { requester, programCid, args }

/-- `TxOutput` has the fields of `Transaction`, in the same order. -/
abbrev TxOutput := Transaction

def TxOutput.toTree (tx : TxOutput) : Json :=
  .object
    [("seq", .number (.posInt tx.seq)),
     ("prev_hash", .string tx.prevHash),
     ("sender", .string tx.sender),
     ("recipient", .string tx.recipient),
     ("amount", .number (.float tx.amount)),
     ("asset", .string tx.asset),
     ("timestamp", .number (.posInt tx.timestamp)),
     ("program_cid", .string tx.programCid),
     ("user_sig", .string tx.userSig)]

structure AttestResult where
  status : String
  transaction : Option TxOutput
  reason : Option String
deriving DecidableEq

/-- The tree that is written: absent fields are skipped. -/
def AttestResult.toTree (result : AttestResult) : Json :=
  .object (("status", .string result.status) ::
    (result.transaction.map fun tx =>
      ("transaction", TxOutput.toTree tx)).toList ++
    (result.reason.map fun reason => ("reason", .string reason)).toList)

/-- Texts that are not given by the guest's own code: of the error for a request
that it cannot read, and of the trap that ends a panic. -/
class GuestTexts where
  transferError : String → String
  trap : String

section Guest

variable {C : Type} [Sqlite C] [SerdeJson] [SerdeJsonText] [FloatFormat]
  [GuestTexts]

/-- `serde_json::to_string(&[&s])`. -/
def params (s : String) : String :=
  fromUtf8Lossy (Json.array [.string s]).write

def sqlQuery (db sql params : String) : Exec C String String := do
  let slice ← queryDatabase db sql params
  return fromUtf8Lossy slice

/-- `serde_json::from_str::<Vec<Vec<Value>>>`, whose error is not looked at. -/
def readRows (text : String) : Option (List (List Json)) :=
  match SerdeJson.fromStr text with
  | .ok value => value.decodeRows
  | .error _ => none

/-- The balance that the guest reads off the rows.  `rows[0][0]` panics where
the first row is empty. -/
def balanceOf : Option (List (List Json)) → Exec C String F64
  | some ((cell :: _) :: _) => pure (cell.asF64.getD ⟨0⟩)
  | some ([] :: _) => throw (.err GuestTexts.trap)
  | _ => pure ⟨0⟩

def queryBalance (requester : String) : Exec C String F64 := do
  let balanceJson ← sqlQuery "balances"
    "SELECT balance FROM accounts WHERE did = ?" (params requester)
  balanceOf (readRows balanceJson)

def queryRecipient (recipient : String) : Exec C String Bool := do
  let recipientJson ← sqlQuery "balances"
    "SELECT 1 FROM accounts WHERE did = ?" (params recipient)
  return match readRows recipientJson with
    | some rows => !rows.isEmpty
    | none => false

def invalid (reason : String) : Bytes :=
  (AttestResult.toTree ⟨"invalid", none, some reason⟩).write

/-- `do_attest`, without its log line. -/
def doAttest (requestJson : String) : Exec C String Bytes :=
  match (SerdeJsonText.syntaxTree requestJson).bind TransferRequest.decode with
  | none =>
      pure (invalid s!"parse error: {GuestTexts.transferError requestJson}")
  | some req =>
      if req.args.amount.le ⟨0⟩ then pure (invalid "amount must be positive")
      else do
        let balance ← queryBalance req.requester
        if balance.lt req.args.amount then
          return invalid "insufficient balance"
        else
          let recipientExists ← queryRecipient req.args.recipient
          if !recipientExists then
            return invalid "recipient does not exist"
          else
            return (AttestResult.toTree
              { status := "valid"
                transaction := some
                  { seq := req.args.seq
                    prevHash := req.args.prevHash
                    sender := req.requester
                    recipient := req.args.recipient
                    amount := req.args.amount
                    asset := req.args.asset
                    timestamp := req.args.timestamp
                    programCid := req.programCid
                    userSig := req.args.userSig }
                reason := none }).write

/-- `attest`, on the bytes of the request. -/
def attest (requestBytes : Bytes) : Exec C String Bytes :=
  doAttest ((fromUtf8 requestBytes).toOption.getD "")

/-- A request to the guest, and the node's reading of its result. -/
def execute (request : AttestationRequest) :
    Exec C CraftSecError AttestationResult := do
  let resultBytes ← Exec.mapErr
    (fun e => CraftSecError.programError s!"WASM execution failed: {e}")
    (attest request.toJson)
  Exec.ofExcept (decodeResult resultBytes)

end Guest

end TransferGuest

end CraftSec
