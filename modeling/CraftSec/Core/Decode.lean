/-
Reading JSON values: serde_json's accessors, its conversions between number
types, and the derived deserializer of a transaction.
-/
import CraftSec.Core.Types

namespace CraftSec

/-- `n as f64`: to nearest, ties to even. -/
def F64.ofU64 (n : UInt64) : F64 :=
  let exponent := Nat.log2 n.toNat
  if n = 0 then ⟨0⟩
  else if exponent ≤ 52 then
    ⟨UInt64.ofNat ((1022 + exponent) * 2 ^ 52 + n.toNat * 2 ^ (52 - exponent))⟩
  else
    let shift := exponent - 52
    let mantissa := n.toNat / 2 ^ shift
    let lost := n.toNat % 2 ^ shift
    let half := 2 ^ (shift - 1)
    -- A carry out of the mantissa is the next exponent with mantissa zero.
    let rounded :=
      if half < lost ∨ lost = half ∧ mantissa % 2 = 1 then mantissa + 1
      else mantissa
    ⟨UInt64.ofNat ((1022 + exponent) * 2 ^ 52 + rounded)⟩

def F64.ofI64 (n : Int64) : F64 :=
  let magnitude := F64.ofU64 (UInt64.ofNat n.toInt.natAbs)
  if n < 0 then ⟨magnitude.bits ||| 0x8000000000000000⟩ else magnitude

/-- `Number::as_i64`. -/
def JsonNumber.asI64 : JsonNumber → Option Int64
  | .posInt n => if n.toNat < 2 ^ 63 then some n.toInt64 else none
  | .negInt n => some n
  | .float _ => none

/-- `Number::as_f64`, which is never `None`. -/
def JsonNumber.asF64 : JsonNumber → F64
  | .posInt n => F64.ofU64 n
  | .negInt n => F64.ofI64 n
  | .float x => x

/-- `json!(i)` of an `i64`. -/
def JsonNumber.ofI64 (n : Int64) : JsonNumber :=
  if n < 0 then .negInt n else .posInt n.toUInt64

namespace Json

/-- `Value::get` with a string key. -/
def get (value : Json) (key : String) : Option Json :=
  match value with
  | .object members => members.lookup key
  | _ => none

/-- `value[key]`, `Null` where there is no such member. -/
def getOrNull (value : Json) (key : String) : Json :=
  (value.get key).getD .null

/-- `Value::as_str`. -/
def asStr : Json → Option String
  | .string s => some s
  | _ => none

/-- What a derived deserializer takes for a `u64`. -/
def decodeU64 : Json → Option UInt64
  | .number (.posInt n) => some n
  | _ => none

/-- What a derived deserializer takes for an `f64`. -/
def decodeF64 : Json → Option F64
  | .number n => some n.asF64
  | _ => none

/-- Field `i` of a derived struct with `count` fields, none of them optional:
a member of an object, or an item of an array of all the fields. -/
def structField (value : Json) (count i : ℕ) (key : String) : Option Json :=
  match value with
  | .object members => members.lookup key
  | .array items => if items.length = count then items[i]? else none
  | _ => none

end Json

/-- What is used of serde_json: the parser, whose error is given by its text,
and the text of the error for a value that is not a transaction. -/
class SerdeJson where
  fromStr : String → Except String Json
  transactionError : Json → String

/-- The derived `Deserialize` of `Transaction`.  Members that are not fields
are ignored. -/
def Transaction.decode (value : Json) : Option Transaction := do
  let seq ← (← value.structField 9 0 "seq").decodeU64
  let prevHash ← (← value.structField 9 1 "prev_hash").asStr
  let sender ← (← value.structField 9 2 "sender").asStr
  let recipient ← (← value.structField 9 3 "recipient").asStr
  let amount ← (← value.structField 9 4 "amount").decodeF64
  let asset ← (← value.structField 9 5 "asset").asStr
  let timestamp ← (← value.structField 9 6 "timestamp").decodeU64
  let programCid ← (← value.structField 9 7 "program_cid").asStr
  let userSig ← (← value.structField 9 8 "user_sig").asStr
  return { seq, prevHash, sender, recipient, amount, asset, timestamp,
           programCid, userSig }

/-- `serde_json::to_value` of a transaction, whose amount is finite; a value
lists its members by key. -/
def Transaction.toValue (tx : Transaction) : Json :=
  .object
    [("amount", .number (.float tx.amount)),
     ("asset", .string tx.asset),
     ("prev_hash", .string tx.prevHash),
     ("program_cid", .string tx.programCid),
     ("recipient", .string tx.recipient),
     ("sender", .string tx.sender),
     ("seq", .number (.posInt tx.seq)),
     ("timestamp", .number (.posInt tx.timestamp)),
     ("user_sig", .string tx.userSig)]

/-- `serde_json::from_value::<Transaction>`. -/
def Transaction.fromValue [SerdeJson] (value : Json) :
    Except String Transaction :=
  match Transaction.decode value with
  | some tx => .ok tx
  | none => .error (SerdeJson.transactionError value)

end CraftSec
