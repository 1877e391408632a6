/-
The two transfer validators on one request.  Native and guest check the same
things, but a field that is there with another type is a default for the one
and an error for the other, and only the guest takes the fields of a transfer
from an array.
-/
import CraftSec.Core.JsonReference
import CraftSec.Node.Node
import CraftSec.Node.TransferGuest

namespace CraftSec

section Arguments

namespace Json

/-- Argument `i` of a transfer, by its name or by its place. -/
def argument (value : Json) (i : ℕ) (key : String) : Option Json :=
  match value with
  | .object members => members.lookup key
  | .array items => items[i]?
  | _ => none

def IsObject : Json → Prop
  | .object _ => True
  | _ => False

/-- A derived deserializer can read `count` fields off it: an object, or an
array of not more items. -/
def HasFields (count : ℕ) : Json → Prop
  | .object _ => True
  | .array items => items.length ≤ count
  | _ => False

/-- No key is repeated, as in every `Value`. -/
def DistinctKeys : Json → Prop
  | .object members => (members.map Prod.fst).Nodup
  | _ => True

/-- The arguments name a recipient and an amount. -/
def Transfers (args : Json) (recipient : String) (amount : F64) : Prop :=
  (args.argument 0 "recipient").bind asStr = some recipient ∧
    (args.argument 1 "amount").bind decodeF64 = some amount

/-- The field is absent, or has its type. -/
def FieldTyped {A : Type} (value : Json) (i : ℕ) (key : String)
    (decode : Json → Option A) : Prop :=
  ∀ field, value.argument i key = some field → (decode field).isSome

/-- Every optional field of a transfer is absent, or has its type. -/
structure OptionalsTyped (args : Json) : Prop where
  seq : args.FieldTyped 2 "seq" decodeU64
  prevHash : args.FieldTyped 3 "prev_hash" asStr
  timestamp : args.FieldTyped 4 "timestamp" decodeU64
  asset : args.FieldTyped 5 "asset" asStr
  userSig : args.FieldTyped 6 "user_sig" asStr

theorem filter_key_eq {members : List (String × Json)}
    (hdistinct : (members.map Prod.fst).Nodup) (key : String) :
    (members.filter fun member => member.1 == key) =
      ((members.lookup key).map fun value => (key, value)).toList := by
  induction members with
  | nil => rfl
  | cons member rest ih =>
      obtain ⟨own, value⟩ := member
      rw [List.map_cons, List.nodup_cons] at hdistinct
      rw [List.filter_cons, lookup_cons_ite, ih hdistinct.2]
      by_cases hkey : key = own
      · subst hkey
        rw [lookup_eq_none_of_not_mem hdistinct.1]
        simp
      · simp [hkey, Ne.symm hkey]

/-- The deserializer finds the arguments of a value that it can read. -/
theorem optionalField_eq {value : Json} (hkeys : value.DistinctKeys)
    {count : ℕ} (hfields : value.HasFields count) (i : ℕ) (key : String) :
    value.optionalField count i key = some (value.argument i key) := by
  cases value with
  | object members =>
      rw [optionalField, filter_key_eq hkeys, argument]
      cases members.lookup key with
      | none => rfl
      | some field => rfl
  | array items => exact if_pos hfields
  | null => exact hfields.elim
  | bool => exact hfields.elim
  | number => exact hfields.elim
  | string => exact hfields.elim

theorem optionalField_eq_none {value : Json} {count : ℕ}
    (hfields : ¬ value.HasFields count) (i : ℕ) (key : String) :
    value.optionalField count i key = none := by
  cases value with
  | object => exact absurd trivial hfields
  | array items => exact if_neg hfields
  | null => rfl
  | bool => rfl
  | number => rfl
  | string => rfl

section Fields

variable {A : Type} {value : Json} {count i : ℕ} {key : String}
  {decode : Json → Option A} {default : A}

/-- An absent or well-typed field is what the accessors make of it. -/
theorem defaultField_of_typed (hkeys : value.DistinctKeys)
    (hfields : value.HasFields count) (htyped : value.FieldTyped i key decode) :
    value.defaultField count i key decode default =
      some (((value.argument i key).bind decode).getD default) := by
  rw [defaultField, optionalField_eq hkeys hfields]
  cases hfield : value.argument i key with
  | none => rfl
  | some field =>
      obtain ⟨a, ha⟩ := Option.isSome_iff_exists.mp (htyped field hfield)
      change decode field = some ((decode field).getD default)
      rw [ha]
      rfl

/-- What the deserializer takes is well-typed. -/
theorem fieldTyped_of_defaultField (hkeys : value.DistinctKeys)
    (hfields : value.HasFields count) {a : A}
    (hread : value.defaultField count i key decode default = some a) :
    value.FieldTyped i key decode := by
  intro field hfield
  rw [defaultField, optionalField_eq hkeys hfields, hfield] at hread
  change decode field = some a at hread
  rw [hread]
  rfl

end Fields

end Json

namespace TransferGuest.TransferArgs

/-- The arguments of a transfer, with the defaults that native and guest
share. -/
def read (args : Json) (recipient : String) (amount : F64) : TransferArgs where
  recipient := recipient
  amount := amount
  seq := ((args.argument 2 "seq").bind Json.decodeU64).getD 1
  prevHash := ((args.argument 3 "prev_hash").bind Json.asStr).getD "0000"
  timestamp := ((args.argument 4 "timestamp").bind Json.decodeU64).getD 0
  asset := ((args.argument 5 "asset").bind Json.asStr).getD "USDC"
  userSig := ((args.argument 6 "user_sig").bind Json.asStr).getD "placeholder"

variable {args : Json} {recipient : String} {amount : F64}

theorem decode_of_typed (hkeys : args.DistinctKeys)
    (hfields : args.HasFields 7) (htyped : args.OptionalsTyped)
    (htransfers : args.Transfers recipient amount) :
    decode args = some (read args recipient amount) := by
  have hfound := Json.optionalField_eq hkeys hfields
  obtain ⟨field, hfield, hrecipient⟩ :=
    Option.bind_eq_some_iff.mp htransfers.1
  obtain ⟨field', hfield', hamount⟩ :=
    Option.bind_eq_some_iff.mp htransfers.2
  rw [decode, hfound, hfound, hfield, hfield',
    Json.defaultField_of_typed hkeys hfields htyped.seq,
    Json.defaultField_of_typed hkeys hfields htyped.prevHash,
    Json.defaultField_of_typed hkeys hfields htyped.timestamp,
    Json.defaultField_of_typed hkeys hfields htyped.asset,
    Json.defaultField_of_typed hkeys hfields htyped.userSig]
  simp only [Option.join_some, Option.bind_eq_bind, Option.bind_some,
    hrecipient, hamount]
  rfl

theorem hasFields_of_decode {out : TransferArgs}
    (hdecode : decode args = some out) : args.HasFields 7 := by
  by_contra hfields
  rw [decode, Json.optionalField_eq_none hfields] at hdecode
  cases hdecode

theorem typed_of_decode (hkeys : args.DistinctKeys) {out : TransferArgs}
    (hdecode : decode args = some out) :
    args.OptionalsTyped ∧ args.Transfers out.recipient out.amount := by
  have hfields := hasFields_of_decode hdecode
  have hfound := Json.optionalField_eq hkeys hfields
  rw [decode] at hdecode
  simp only [Option.bind_eq_bind, Option.bind_eq_some_iff] at hdecode
  obtain ⟨field, hfield, recipient, hrecipient, field', hfield', amount,
    hamount, seq, hseq, prevHash, hprevHash, timestamp, htimestamp, asset,
    hasset, userSig, huserSig, hout⟩ := hdecode
  cases hout
  rw [hfound, Option.join_some] at hfield hfield'
  refine ⟨?_, ?_, ?_⟩
  · exact ⟨Json.fieldTyped_of_defaultField hkeys hfields hseq,
      Json.fieldTyped_of_defaultField hkeys hfields hprevHash,
      Json.fieldTyped_of_defaultField hkeys hfields htimestamp,
      Json.fieldTyped_of_defaultField hkeys hfields hasset,
      Json.fieldTyped_of_defaultField hkeys hfields huserSig⟩
  · exact Option.bind_eq_some_iff.mpr ⟨field, hfield, hrecipient⟩
  · exact Option.bind_eq_some_iff.mpr ⟨field', hfield', hamount⟩

/-- What the guest's deserializer accepts, and what it makes of it. -/
theorem decode_eq_some_iff (hkeys : args.DistinctKeys) (out : TransferArgs) :
    decode args = some out ↔
      args.HasFields 7 ∧ args.OptionalsTyped ∧
        args.Transfers out.recipient out.amount ∧
          out = read args out.recipient out.amount := by
  constructor
  · intro hdecode
    have hfields := hasFields_of_decode hdecode
    obtain ⟨htyped, htransfers⟩ := typed_of_decode hkeys hdecode
    have hread := decode_of_typed hkeys hfields htyped htransfers
    rw [hdecode] at hread
    exact ⟨hfields, htyped, htransfers, Option.some.inj hread⟩
  · rintro ⟨hfields, htyped, htransfers, hout⟩
    rw [hout]
    exact decode_of_typed hkeys hfields htyped htransfers

end TransferGuest.TransferArgs

end Arguments

open TransferGuest

section Native

/-- `args.balance`, or its default of 1000. -/
def nativeBalance (args : Json) : F64 :=
  ((args.get "balance").bind Json.asF64).getD ⟨0x408f400000000000⟩

theorem get_eq_argument {args : Json} (hobject : args.IsObject) (i : ℕ)
    (key : String) : args.get key = args.argument i key := by
  cases args with
  | object => rfl
  | null => exact hobject.elim
  | bool => exact hobject.elim
  | number => exact hobject.elim
  | string => exact hobject.elim
  | array => exact hobject.elim

theorem get_eq_none {args : Json} (hobject : ¬ args.IsObject) (key : String) :
    args.get key = none := by
  cases args with
  | object => exact absurd trivial hobject
  | null => rfl
  | bool => rfl
  | number => rfl
  | string => rfl
  | array => rfl

theorem asStr_getOrNull (args : Json) (key : String) :
    (args.getOrNull key).asStr = (args.get key).bind Json.asStr := by
  rw [Json.getOrNull]
  cases args.get key with
  | none => rfl
  | some field => rfl

theorem asF64_getOrNull (args : Json) (key : String) :
    (args.getOrNull key).asF64 = (args.get key).bind Json.decodeF64 := by
  rw [Json.getOrNull]
  cases args.get key with
  | none => rfl
  | some field => rfl

/-- The native validator on arguments that name a recipient and an amount. -/
theorem transferValidator_of_transfers {request : AttestationRequest}
    {recipient : String} {amount : F64} (hobject : request.args.IsObject)
    (htransfers : request.args.Transfers recipient amount) :
    transferValidator request =
      if amount.le ⟨0⟩ then .ok (.invalid "amount must be positive")
      else if (nativeBalance request.args).lt amount then
        .ok (.invalid "insufficient balance")
      else
        .ok (.valid ((TransferArgs.read request.args recipient
          amount).transaction request)) := by
  have hget := get_eq_argument hobject
  obtain ⟨hrecipient, hamount⟩ := htransfers
  rw [transferValidator]
  simp only [asStr_getOrNull, asF64_getOrNull, hget 0 "recipient", hrecipient,
    hget 1 "amount", hamount, hget 2 "seq", hget 3 "prev_hash",
    hget 4 "timestamp", hget 5 "asset", hget 6 "user_sig"]
  rfl

/-- What the native validator signs. -/
theorem transferValidator_eq_valid_iff (request : AttestationRequest)
    (tx : Transaction) :
    transferValidator request = .ok (.valid tx) ↔
      ∃ recipient amount, request.args.IsObject ∧
        request.args.Transfers recipient amount ∧ amount.le ⟨0⟩ = false ∧
        (nativeBalance request.args).lt amount = false ∧
        tx = (TransferArgs.read request.args recipient
          amount).transaction request := by
  constructor
  · intro hvalid
    by_cases hobject : request.args.IsObject
    · have hget := get_eq_argument hobject
      have hread := hvalid
      rw [transferValidator] at hread
      simp only [asStr_getOrNull, asF64_getOrNull, hget 0 "recipient",
        hget 1 "amount"] at hread
      split at hread
      next => cases hread
      next recipient hrecipient =>
        split at hread
        next => cases hread
        next amount hamount =>
          have htransfers : request.args.Transfers recipient amount :=
            ⟨hrecipient, hamount⟩
          rw [transferValidator_of_transfers hobject htransfers] at hvalid
          split at hvalid
          next => cases hvalid
          next hpositive =>
            split at hvalid
            next => cases hvalid
            next hcovers =>
              cases hvalid
              exact ⟨recipient, amount, hobject, htransfers,
                Bool.eq_false_of_not_eq_true hpositive,
                Bool.eq_false_of_not_eq_true hcovers, rfl⟩
    · rw [transferValidator] at hvalid
      simp only [asStr_getOrNull, get_eq_none hobject, Option.bind_none]
        at hvalid
      cases hvalid
  · rintro ⟨recipient, amount, hobject, htransfers, hpositive, hcovers, rfl⟩
    rw [transferValidator_of_transfers hobject htransfers, hpositive, hcovers]
    rfl

end Native

section Agreement

variable {C : Type} [Sqlite C] [SerdeJson] [SerdeJsonText] [FloatFormat]
  [GuestTexts]

/-- The balance check passes on both sides, and the database knows the
recipient. -/
def Covered (databases : Databases C) (request : AttestationRequest) : Prop :=
  ∀ recipient amount, request.args.Transfers recipient amount →
    (nativeBalance request.args).lt amount = false ∧
      Serves databases request.requester recipient amount

/-- With a parser that restores all floats, a served request is answered by its
amount. -/
theorem execute_of_serves [LawfulSerdeJson] {databases : Databases C}
    {request : AttestationRequest} (hargs : request.args.Representable)
    {args : TransferArgs} (hdecode : TransferArgs.decode request.args = some args)
    (hserves : Serves databases request.requester args.recipient args.amount) :
    (execute request databases).1 =
      .ok (if args.amount.le ⟨0⟩ then .invalid "amount must be positive"
        else .valid (args.transaction request)) :=
  execute_of_decode_some restoresFloats_of_lawful (answersRestored_true _ _ _)
    (requestRestored_of_representable hargs) hdecode hserves

/-- What the guest's node signs. -/
theorem execute_eq_valid_iff [LawfulSerdeJson] {databases : Databases C}
    {request : AttestationRequest} (hargs : request.args.Representable)
    (hkeys : request.args.DistinctKeys) (hcovered : Covered databases request)
    (tx : Transaction) :
    (execute request databases).1 = .ok (.valid tx) ↔
      ∃ recipient amount,
        (request.args.HasFields 7 ∧ request.args.OptionalsTyped) ∧
        request.args.Transfers recipient amount ∧ amount.le ⟨0⟩ = false ∧
        tx = (TransferArgs.read request.args recipient
          amount).transaction request := by
  constructor
  · intro hvalid
    cases hdecode : TransferArgs.decode request.args with
    | none =>
        obtain ⟨reason, hinvalid⟩ := execute_of_decode_none
          restoresFloats_of_lawful (Json.survives_of_representable hargs)
          hdecode databases
        rw [hinvalid] at hvalid
        cases hvalid
    | some out =>
        obtain ⟨hfields, htyped, htransfers, hout⟩ :=
          (TransferArgs.decode_eq_some_iff hkeys out).mp hdecode
        have hresult := execute_of_serves hargs hdecode
          (hcovered _ _ htransfers).2
        rw [hvalid] at hresult
        refine ⟨out.recipient, out.amount, ⟨hfields, htyped⟩, htransfers, ?_⟩
        cases hpositive : out.amount.le ⟨0⟩ with
        | true =>
            rw [hpositive] at hresult
            cases hresult
        | false =>
            rw [hpositive, hout] at hresult
            cases hresult
            exact ⟨rfl, rfl⟩
  · rintro ⟨recipient, amount, ⟨hfields, htyped⟩, htransfers, hpositive, rfl⟩
    have hdecode := TransferArgs.decode_of_typed hkeys hfields htyped htransfers
    have hpositive' : (TransferArgs.read request.args recipient
        amount).amount.le ⟨0⟩ = false := hpositive
    rw [execute_of_serves hargs hdecode (hcovered _ _ htransfers).2, hpositive']
    rfl

/-- Wherever the arguments are a transfer of a positive amount, they are an
object exactly where the guest can read all of them: no optional field of an
object has another type, and no array passes for the arguments. -/
def ReadAlike (args : Json) : Prop :=
  ∀ recipient amount, args.Transfers recipient amount →
    amount.le ⟨0⟩ = false →
      (args.IsObject ↔ args.HasFields 7 ∧ args.OptionalsTyped)

/-- Both validators approve the same transactions. -/
def ValidatorsAgree (databases : Databases C) (request : AttestationRequest) :
    Prop :=
  ∀ tx, transferValidator request = .ok (.valid tx) ↔
    (execute request databases).1 = .ok (.valid tx)

/-- On a request that is covered on both sides, the validators agree exactly
where they read the arguments alike. -/
theorem transfer_validators_agree_iff [LawfulSerdeJson]
    (databases : Databases C) (request : AttestationRequest)
    (hargs : request.args.Representable) (hkeys : request.args.DistinctKeys)
    (hcovered : Covered databases request) :
    ValidatorsAgree databases request ↔ ReadAlike request.args := by
  have hguest := execute_eq_valid_iff hargs hkeys hcovered
  constructor
  · intro hagree recipient amount htransfers hpositive
    have hnative := (hcovered recipient amount htransfers).1
    constructor
    · intro hobject
      have hvalid := (transferValidator_eq_valid_iff request _).mpr
        ⟨recipient, amount, hobject, htransfers, hpositive, hnative, rfl⟩
      obtain ⟨-, -, hread, -⟩ := (hguest _).mp ((hagree _).mp hvalid)
      exact hread
    · intro hread
      have hvalid := (hguest _).mpr
        ⟨recipient, amount, hread, htransfers, hpositive, rfl⟩
      obtain ⟨-, -, hobject, -⟩ :=
        (transferValidator_eq_valid_iff request _).mp ((hagree _).mpr hvalid)
      exact hobject
  · intro halike tx
    rw [transferValidator_eq_valid_iff, hguest]
    constructor
    · rintro ⟨recipient, amount, hobject, htransfers, hpositive, -, htx⟩
      exact ⟨recipient, amount,
        (halike recipient amount htransfers hpositive).mp hobject, htransfers,
        hpositive, htx⟩
    · rintro ⟨recipient, amount, hread, htransfers, hpositive, htx⟩
      exact ⟨recipient, amount,
        (halike recipient amount htransfers hpositive).mpr hread, htransfers,
        hpositive, (hcovered recipient amount htransfers).1, htx⟩

end Agreement

section Accounts

/-- A database with a table of accounts, which answers two statements. -/
structure Accounts where
  balances : List (String × F64)

instance : Sqlite Accounts where
  openInMemory := ⟨[]⟩
  executeBatch accounts _ := (.returned (.error ""), accounts)
  query accounts sql params :=
    match params with
    | [.text did] =>
        let rows := accounts.balances.filter fun account => account.1 = did
        if sql = "SELECT balance FROM accounts WHERE did = ?" then
          (.returned (.ok (rows.map fun account => [.real account.2])),
            accounts)
        else if sql = "SELECT 1 FROM accounts WHERE did = ?" then
          (.returned (.ok (rows.map fun _ => [.integer 1])), accounts)
        else (.returned (.error ""), accounts)
    | _ => (.returned (.error ""), accounts)

/-- Alice has 10.0, and Bob nothing. -/
def twoAccounts : Databases Accounts where
  lock := .free
  map name :=
    if name = "balances" then
      some ⟨⟨[("did:alice", ⟨0x4024000000000000⟩), ("did:bob", ⟨0⟩)]⟩⟩
    else none

/-- One unit from Alice to Bob. -/
def transferRequest (args : Json) : AttestationRequest :=
  { sampleRequest with args := args }

/-- The arguments of the transfer, with a sequence number. -/
def transferArgs (seq : Json) : Json :=
  .object
    [("amount", .number (.float ⟨0x3ff0000000000000⟩)),
     ("recipient", .string "did:bob"),
     ("seq", seq)]

theorem serves_twoAccounts :
    Serves twoAccounts "did:alice" "did:bob" ⟨0x3ff0000000000000⟩ :=
  ⟨_, .real ⟨0x4024000000000000⟩, [], [], _, [.integer 1], [], _, rfl, rfl,
    rfl, by decide, rfl⟩

theorem covered_transferArgs (seq : Json) :
    Covered twoAccounts (transferRequest (transferArgs seq)) := by
  rintro recipient amount ⟨hrecipient, hamount⟩
  cases hrecipient
  cases hamount
  have hbalance : nativeBalance (transferArgs seq) = ⟨0x408f400000000000⟩ := rfl
  refine ⟨?_, serves_twoAccounts⟩
  change (nativeBalance (transferArgs seq)).lt ⟨0x3ff0000000000000⟩ = false
  rw [hbalance]
  decide

/-- A sequence number that is one is read alike. -/
theorem readAlike_transferArgs :
    ReadAlike (transferArgs (.number (.posInt 7))) := by
  refine fun _ _ _ _ => ⟨fun _ => ⟨trivial, ?_⟩, fun _ => trivial⟩
  constructor
  all_goals
    intro field hfield
    cases hfield
  rfl

theorem transfer_validators_agree_typed :
    letI := JsonReference.floatFormat
    letI := JsonReference.serdeJson
    letI := JsonReference.serdeJsonText
    letI : GuestTexts := ⟨fun _ => "", "unreachable"⟩
    ValidatorsAgree twoAccounts
      (transferRequest (transferArgs (.number (.posInt 7)))) := by
  let _ := JsonReference.floatFormat
  let _ := JsonReference.serdeJson
  let _ := JsonReference.serdeJsonText
  let _ : GuestTexts := ⟨fun _ => "", "unreachable"⟩
  have _ := JsonReference.lawfulSerdeJson
  refine (transfer_validators_agree_iff twoAccounts _ ?_ ?_
    (covered_transferArgs _)).mpr readAlike_transferArgs
  · exact ⟨rfl, trivial, trivial, trivial⟩
  · change (List.map Prod.fst _).Nodup
    decide

/-- The arguments of the transfer by their place. -/
def positionalArgs : Json :=
  .array [.string "did:bob", .number (.float ⟨0x3ff0000000000000⟩)]

/-- With the text of a sequence number the native validator falls back to its
default, and the guest cannot read the request.  Arguments by place are signed
by the guest alone. -/
theorem transfer_validators_disagree :
    letI := JsonReference.floatFormat
    letI := JsonReference.serdeJson
    letI := JsonReference.serdeJsonText
    letI : GuestTexts := ⟨fun _ => "", "unreachable"⟩
    let request := transferRequest (transferArgs (.string "7"))
    let positional := transferRequest positionalArgs
    (Covered twoAccounts request ∧
      transferValidator request = .ok (.valid sampleTransaction) ∧
      (∃ reason, (execute request twoAccounts).1 = .ok (.invalid reason)) ∧
      ¬ ValidatorsAgree twoAccounts request) ∧
    Covered twoAccounts positional ∧
      transferValidator positional =
        .error (.programError "missing recipient") ∧
      (execute positional twoAccounts).1 = .ok (.valid sampleTransaction) := by
  let _ := JsonReference.floatFormat
  let _ := JsonReference.serdeJson
  let _ := JsonReference.serdeJsonText
  let _ : GuestTexts := ⟨fun _ => "", "unreachable"⟩
  have _ := JsonReference.lawfulSerdeJson
  have hread : (transferArgs (.string "7")).Representable :=
    ⟨rfl, trivial, trivial, trivial⟩
  have hunread : TransferArgs.decode
      (transferRequest (transferArgs (.string "7"))).args = none := rfl
  obtain ⟨reason, hguest⟩ := execute_of_decode_none restoresFloats_of_lawful
    (Json.survives_of_representable hread) hunread twoAccounts
  have hplaced : positionalArgs.Representable := ⟨trivial, rfl, trivial⟩
  have hdecoded : TransferArgs.decode
      (transferRequest positionalArgs).args = some
        ⟨"did:bob", ⟨0x3ff0000000000000⟩, 1, "0000", 0, "USDC",
          "placeholder"⟩ := rfl
  have hpositional :=
    execute_of_serves hplaced hdecoded serves_twoAccounts
  refine ⟨⟨covered_transferArgs _, rfl, ⟨reason, hguest⟩, ?_⟩, ?_, rfl,
    hpositional⟩
  · intro hagree
    have hvalid := (hagree sampleTransaction).mp rfl
    rw [hguest] at hvalid
    cases hvalid
  · rintro recipient amount ⟨hrecipient, hamount⟩
    cases hrecipient
    cases hamount
    exact ⟨by decide, serves_twoAccounts⟩

end Accounts

end CraftSec
