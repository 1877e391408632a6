/-
The guest on its way through a request.  It reads back what the node sent and
what the database answered, and the node reads back the result.
-/
import CraftSec.Core.Serde
import CraftSec.Node.TransferValidator

namespace CraftSec

section Items

namespace Json

theorem representable_of_optionalField {value field : Json} {count i : ℕ}
    {key : String} (hvalue : value.Representable)
    (hfield : value.optionalField count i key = some (some field)) :
    field.Representable := by
  cases value with
  | object members =>
      rw [optionalField] at hfield
      split at hfield
      next => cases hfield
      next member hfilter =>
        cases hfield
        have hmem : member ∈ members.filter fun other => other.1 == key := by
          rw [hfilter]
          exact List.mem_singleton_self member
        exact representableMembers_iff.mp hvalue member
          (List.mem_of_mem_filter hmem)
      next => cases hfield
  | array items =>
      rw [optionalField] at hfield
      split at hfield
      next =>
        exact representableItems_iff.mp hvalue field
          (List.mem_of_getElem? (Option.some.inj hfield))
      next => cases hfield
  | null => cases hfield
  | bool => cases hfield
  | number => cases hfield
  | string => cases hfield

/-- Neither an array nor an object. -/
structure IsScalar (value : Json) : Prop where
  depth_eq : value.depth = 0
  normalize_eq : value.normalize = value

end Json

theorem SqlValue.isScalar_toJson (cell : SqlValue) : cell.toJson.IsScalar := by
  cases cell with
  | null => exact ⟨rfl, rfl⟩
  | integer n => exact ⟨rfl, rfl⟩
  | real x =>
      rw [toJson]
      split
      next => exact ⟨rfl, rfl⟩
      next => exact ⟨rfl, rfl⟩
  | text s => exact ⟨rfl, rfl⟩
  | blob bytes => exact ⟨rfl, rfl⟩

variable {Restored : F64 → Prop}

theorem JsonNumber.survives_ofI64 (n : Int64) :
    (JsonNumber.ofI64 n).Survives Restored := by
  rw [JsonNumber.ofI64]
  split
  next hneg => exact hneg
  next => exact trivial

theorem SqlValue.survives_toJson {cell : SqlValue}
    (hreal : ∀ x, cell = .real x → x.isFinite = true → Restored x) :
    cell.toJson.Survives Restored := by
  cases cell with
  | null => exact survives_of_numbers_eq_nil rfl
  | integer n =>
      exact List.forall_mem_singleton.mpr (JsonNumber.survives_ofI64 n)
  | real x =>
      rw [toJson]
      split
      next hfinite =>
        exact List.forall_mem_singleton.mpr
          ⟨hfinite, hreal x rfl hfinite⟩
      next => exact survives_of_numbers_eq_nil rfl
  | text s => exact survives_of_numbers_eq_nil rfl
  | blob bytes => exact survives_of_numbers_eq_nil rfl

end Items

/-- The rows of a query as the host writes them. -/
def rowsTree (rows : List (List SqlValue)) : Json :=
  .array (rows.map fun row => .array (row.map SqlValue.toJson))

/-- The parser restores the reals in the rows. -/
def RowsRestored (Restored : F64 → Prop) (rows : List (List SqlValue)) : Prop :=
  ∀ row ∈ rows, ∀ x, .real x ∈ row → x.isFinite = true → Restored x

theorem survives_rowsTree {Restored : F64 → Prop}
    {rows : List (List SqlValue)} (hrows : RowsRestored Restored rows) :
    (rowsTree rows).Survives Restored := by
  rw [rowsTree, Json.survives_array_iff, List.forall_mem_map]
  intro row hrow
  rw [Json.survives_array_iff, List.forall_mem_map]
  intro cell hcell
  apply SqlValue.survives_toJson
  rintro x rfl
  exact hrows row hrow x hcell

theorem depth_rowsTree (rows : List (List SqlValue)) :
    (rowsTree rows).depth ≤ 2 := by
  refine Nat.succ_le_succ (Json.depthItems_le ?_)
  intro row hrow
  obtain ⟨cells, -, rfl⟩ := List.mem_map.mp hrow
  refine Nat.succ_le_succ (Json.depthItems_le ?_)
  intro cell hcell
  obtain ⟨value, -, rfl⟩ := List.mem_map.mp hcell
  exact le_of_eq value.isScalar_toJson.depth_eq

theorem normalize_rowsTree (rows : List (List SqlValue)) :
    (rowsTree rows).normalize = rowsTree rows := by
  refine congrArg Json.array (Json.normalizeItems_eq_self ?_)
  intro row hrow
  obtain ⟨cells, -, rfl⟩ := List.mem_map.mp hrow
  refine congrArg Json.array (Json.normalizeItems_eq_self ?_)
  intro cell hcell
  obtain ⟨value, -, rfl⟩ := List.mem_map.mp hcell
  exact value.isScalar_toJson.normalize_eq

theorem decodeRows_rowsTree (rows : List (List SqlValue)) :
    (rowsTree rows).decodeRows =
      some (rows.map fun row => row.map SqlValue.toJson) := by
  change (rows.map fun row => Json.array (row.map SqlValue.toJson)).mapM
    Json.decodeValues = _
  induction rows with
  | nil => rfl
  | cons row rows ih =>
      rw [List.map_cons, List.mapM_cons, ih]
      rfl

namespace TransferGuest

section Queries

variable {C : Type} [Sqlite C] [SerdeJson] [SerdeJsonText] [FloatFormat]
  [LawfulFloatFormat] {Restored : F64 → Prop}

theorem queryParams_params (hreads : RestoresFloats Restored) (s : String) :
    SqlDatabase.queryParams (params s) = [.string s] := by
  have hsurvives : (Json.array [.string s]).Survives Restored :=
    survives_of_numbers_eq_nil rfl
  have hparse := hreads.fromStr_text hsurvives (by change 1 < 128; decide)
  rw [SqlDatabase.queryParams, params, hparse]
  rfl

/-- The rows come back as the database gave them. -/
theorem readRows_write (hreads : RestoresFloats Restored)
    {rows : List (List SqlValue)} (hrows : RowsRestored Restored rows) :
    readRows (fromUtf8Lossy (rowsTree rows).write) =
      some (rows.map fun row => row.map SqlValue.toJson) := by
  have hdepth : (rowsTree rows).depth < 128 :=
    lt_of_le_of_lt (depth_rowsTree rows) (by decide)
  rw [readRows, hreads.fromStr_text (survives_rowsTree hrows) hdepth,
    normalize_rowsTree]
  exact decodeRows_rowsTree rows

/-- The rows that the host writes for an answer of SQLite. -/
def answeredRows : Except String (List (List SqlValue)) →
    List (List SqlValue)
  | .ok rows => rows
  | .error _ => []

omit [LawfulFloatFormat] [SerdeJson] [SerdeJsonText] in
theorem rowsText_eq (answer : Except String (List (List SqlValue))) :
    SqlDatabase.rowsText answer = (rowsTree (answeredRows answer)).write := by
  cases answer with
  | ok rows => rfl
  | error e => rfl

/-- A query with one string, answered by the database. -/
theorem sqlQuery_eq (hreads : RestoresFloats Restored)
    {databases : Databases C} {dbName sql s : String} {db : SqlDatabase C}
    {answer : Except String (List (List SqlValue))} {conn : C}
    (hfree : databases.lock = .free) (hdb : databases.map dbName = some db)
    (hquery : Sqlite.query db.conn sql [.text s] =
      (.returned answer, conn)) :
    sqlQuery dbName sql (params s) databases =
      (.ok (fromUtf8Lossy (rowsTree (answeredRows answer)).write),
        ⟨.free, Function.update databases.map dbName (some ⟨conn⟩)⟩) := by
  have hparams : (SqlDatabase.queryParams (params s)).map SqlValue.ofJson =
      [.text s] := by
    rw [queryParams_params hreads]
    rfl
  have hwork : queryIn dbName sql (params s) databases.map =
      (.returned (rowsTree (answeredRows answer)).write,
        Function.update databases.map dbName (some ⟨conn⟩)) := by
    rw [queryIn, hdb]
    simp only [SqlDatabase.query, hparams, hquery, CallOutcome.map,
      rowsText_eq]
  rw [sqlQuery, queryDatabase,
    Exec.bind_of_ok (Exec.underLock_of_returned hfree hwork)]
  rfl

end Queries

section Results

theorem decode_normalize_toTree (tx : TxOutput) :
    Transaction.decode (TxOutput.toTree tx).normalize = some tx := by
  have hfield := fun i key => Json.structField_normalize 9 i key
    [("seq", .number (.posInt tx.seq)),
      ("prev_hash", .string tx.prevHash),
      ("sender", .string tx.sender),
      ("recipient", .string tx.recipient),
      ("amount", .number (.float tx.amount)),
      ("asset", .string tx.asset),
      ("timestamp", .number (.posInt tx.timestamp)),
      ("program_cid", .string tx.programCid),
      ("user_sig", .string tx.userSig)] (by simp)
  rw [Transaction.decode, TxOutput.toTree]
  simp only [hfield]
  rfl

variable [SerdeJson] [SerdeJsonText] [FloatFormat] [LawfulFloatFormat]
  {Restored : F64 → Prop}

/-- A reason comes back from the result that carries it. -/
theorem decodeResult_invalid (hreads : RestoresFloats Restored)
    (reason : String) :
    decodeResult (invalid reason) = .ok (.invalid reason) := by
  have hsurvives : (AttestResult.toTree
      ⟨"invalid", none, some reason⟩).Survives Restored :=
    survives_of_numbers_eq_nil rfl
  have hread := hreads.fromStr_text hsurvives (by change 1 < 128; decide)
  have hlookup := fun key => Json.getOrNull_normalize key
    [("status", .string "invalid"), ("reason", .string reason)]
    (by simp)
  have hstatus : (AttestResult.toTree
      ⟨"invalid", none, some reason⟩).normalize.getOrNull "status" =
        .string "invalid" := hlookup "status"
  have hreason : (AttestResult.toTree
      ⟨"invalid", none, some reason⟩).normalize.getOrNull "reason" =
        .string reason := hlookup "reason"
  rw [decodeResult, invalid, fromUtf8_write]
  simp only [hread, hstatus, hreason, Json.asStr, Option.getD_some]

/-- So does a transaction whose amount is finite, and restored. -/
theorem decodeResult_valid (hreads : RestoresFloats Restored) {tx : TxOutput}
    (hamount : tx.amount.isFinite = true) (hrestored : Restored tx.amount) :
    decodeResult (AttestResult.toTree ⟨"valid", some tx, none⟩).write =
      .ok (.valid tx) := by
  have hsurvives : (AttestResult.toTree
      ⟨"valid", some tx, none⟩).Survives Restored := by
    have hnumbers : (AttestResult.toTree ⟨"valid", some tx, none⟩).numbers =
        [.posInt tx.seq, .float tx.amount, .posInt tx.timestamp] := rfl
    rw [Json.Survives, hnumbers]
    simp only [List.forall_mem_cons]
    exact ⟨trivial, ⟨hamount, hrestored⟩, trivial, List.forall_mem_nil _⟩
  have hread := hreads.fromStr_text hsurvives (by change 2 < 128; decide)
  have hlookup := fun key => Json.getOrNull_normalize key
    [("status", .string "valid"),
      ("transaction", TxOutput.toTree tx)] (by simp)
  have hstatus : (AttestResult.toTree
      ⟨"valid", some tx, none⟩).normalize.getOrNull "status" =
        .string "valid" := hlookup "status"
  have htransaction : (AttestResult.toTree
      ⟨"valid", some tx, none⟩).normalize.getOrNull "transaction" =
        (TxOutput.toTree tx).normalize := hlookup "transaction"
  rw [decodeResult, fromUtf8_write]
  simp only [hread, hstatus, htransaction, Json.asStr, Transaction.fromValue,
    decode_normalize_toTree]

end Results

/-- The amount comes from a number, so it is finite. -/
theorem TransferArgs.amount_isFinite {value : Json} {args : TransferArgs}
    (hvalue : value.Representable) (hdecode : decode value = some args) :
    args.amount.isFinite = true := by
  rw [decode] at hdecode
  simp only [Option.bind_eq_bind, Option.bind_eq_some_iff] at hdecode
  obtain ⟨_, -, recipient, -, field, hfield, amount, hamount, hrest⟩ := hdecode
  have hargs : args.amount = amount := by
    obtain ⟨_, -, _, -, _, -, _, -, _, -, heq⟩ := hrest
    cases heq
    rfl
  have hrepresentable := Json.representable_of_optionalField hvalue
    (Option.join_eq_some_iff.mp hfield)
  rw [hargs]
  cases field with
  | number n =>
      cases hamount
      exact JsonNumber.asF64_isFinite hrepresentable
  | null => cases hamount
  | bool => cases hamount
  | string => cases hamount
  | array => cases hamount
  | object => cases hamount

section Guest

variable {C : Type} [Sqlite C]

/-- The account database answers with a balance that covers the amount, and
knows the recipient. -/
def Serves (databases : Databases C) (requester recipient : String)
    (amount : F64) : Prop :=
  ∃ (db : SqlDatabase C) (cell : SqlValue) (cells : List SqlValue)
    (rows : List (List SqlValue)) (conn : C) (row : List SqlValue)
    (rows' : List (List SqlValue)) (conn' : C),
    databases.lock = .free ∧ databases.map "balances" = some db ∧
      Sqlite.query db.conn "SELECT balance FROM accounts WHERE did = ?"
        [.text requester] = (.returned (.ok ((cell :: cells) :: rows)), conn) ∧
      (cell.toJson.asF64.getD ⟨0⟩).lt amount = false ∧
      Sqlite.query conn "SELECT 1 FROM accounts WHERE did = ?"
        [.text recipient] = (.returned (.ok (row :: rows')), conn')

/-- The parser restores the reals that the account database answers with, to the
question for the requester's balance and then to that for the recipient. -/
def AnswersRestored (Restored : F64 → Prop) (databases : Databases C)
    (requester recipient : String) : Prop :=
  ∀ (db : SqlDatabase C) (rows : List (List SqlValue)) (conn : C),
    databases.map "balances" = some db →
    Sqlite.query db.conn "SELECT balance FROM accounts WHERE did = ?"
      [.text requester] = (.returned (.ok rows), conn) →
    RowsRestored Restored rows ∧
    ∀ (rows' : List (List SqlValue)) (conn' : C),
      Sqlite.query conn "SELECT 1 FROM accounts WHERE did = ?"
        [.text recipient] = (.returned (.ok rows'), conn') →
      RowsRestored Restored rows'

/-- The parser restores the floats of a request: those in its arguments, and
the amount as the guest has it. -/
structure RequestRestored (Restored : F64 → Prop)
    (request : AttestationRequest) : Prop where
  args : request.args.Survives Restored
  amount : ∀ args, TransferArgs.decode request.args = some args →
    Restored args.amount

theorem answersRestored_true (databases : Databases C)
    (requester recipient : String) :
    AnswersRestored (fun _ => True) databases requester recipient :=
  fun _ _ _ _ _ => ⟨fun _ _ _ _ _ => trivial,
    fun _ _ _ _ _ _ _ _ => trivial⟩

omit [Sqlite C] in
theorem requestRestored_of_representable {request : AttestationRequest}
    (hargs : request.args.Representable) :
    RequestRestored (fun _ => True) request where
  args := Json.survives_of_representable hargs
  amount _ _ := trivial

variable [SerdeJson] [SerdeJsonText] [FloatFormat] [GuestTexts]

/-- The transaction that a request asks for. -/
def TransferArgs.transaction (args : TransferArgs)
    (request : AttestationRequest) : Transaction where
  seq := args.seq
  prevHash := args.prevHash
  sender := request.requester
  recipient := args.recipient
  amount := args.amount
  asset := args.asset
  timestamp := args.timestamp
  programCid := request.programCid
  userSig := args.userSig

/-- The tree of the request. -/
def requestTree (request : AttestationRequest) : Json :=
  .object
    [("args", request.args),
     ("program_cid", .string request.programCid),
     ("requester", .string request.requester)]

omit [SerdeJson] [SerdeJsonText] [FloatFormat] [GuestTexts] in
/-- The guest reads off the request what the node has. -/
theorem decode_requestTree (request : AttestationRequest) :
    TransferRequest.decode (requestTree request) =
      (TransferArgs.decode request.args).map fun args =>
        ⟨request.requester, request.programCid, args⟩ := by
  have hrequester : (requestTree request).textField 3 0 "requester" =
      some (.string request.requester) := by
    simp [requestTree, Json.textField]
  have hprogramCid : (requestTree request).textField 3 1 "program_cid" =
      some (.string request.programCid) := by
    simp [requestTree, Json.textField]
  have hargs : (requestTree request).textField 3 2 "args" =
      some request.args := by
    simp [requestTree, Json.textField]
  rw [TransferRequest.decode, hrequester, hprogramCid, hargs]
  change (TransferArgs.decode request.args).bind (fun args =>
    some (⟨request.requester, request.programCid, args⟩ : TransferRequest)) = _
  cases TransferArgs.decode request.args with
  | none => rfl
  | some args => rfl

/-- The node gets the result of the guest's run on its request. -/
theorem execute_fst {databases : Databases C} {request : AttestationRequest}
    {text : String} {bytes : Bytes} {result : AttestationResult}
    (hattest : (attest request.toJson : Exec C String Bytes) = doAttest text)
    (hrun : (doAttest text databases).1 = .ok bytes)
    (hresult : decodeResult bytes = .ok result) :
    (execute request databases).1 = .ok result := by
  have hpair : doAttest text databases =
      (.ok bytes, (doAttest text databases).2) := Prod.ext hrun rfl
  rw [execute, hattest, Exec.bind_of_ok (Exec.mapErr_of_ok hpair), hresult]
  rfl

variable [LawfulFloatFormat] {Restored : F64 → Prop}

/-- The text that reaches the guest holds the request. -/
theorem attest_toJson (hreads : RestoresFloats Restored)
    {request : AttestationRequest}
    (hargs : request.args.Survives Restored) :
    ∃ text, (attest request.toJson : Exec C String Bytes) = doAttest text ∧
      SerdeJsonText.syntaxTree text = some (requestTree request) := by
  have htree : (requestTree request).Survives Restored := by
    rw [requestTree, Json.survives_object_iff]
    simp only [List.forall_mem_cons]
    exact ⟨hargs, survives_of_numbers_eq_nil rfl,
      survives_of_numbers_eq_nil rfl, List.forall_mem_nil _⟩
  refine ⟨fromUtf8Lossy (requestTree request).write, ?_,
    hreads.syntaxTree_text htree⟩
  change doAttest ((fromUtf8 (requestTree request).write).toOption.getD "") = _
  rw [fromUtf8_write]
  rfl

/-- Both queries of a request that the database serves. -/
theorem queryBalance_eq (hreads : RestoresFloats Restored)
    {databases : Databases C} {db : SqlDatabase C} {requester : String}
    {cell : SqlValue} {cells : List SqlValue} {rows : List (List SqlValue)}
    {conn : C} (hrows : RowsRestored Restored ((cell :: cells) :: rows))
    (hfree : databases.lock = .free)
    (hdb : databases.map "balances" = some db)
    (hquery : Sqlite.query db.conn
      "SELECT balance FROM accounts WHERE did = ?" [.text requester] =
        (.returned (.ok ((cell :: cells) :: rows)), conn)) :
    queryBalance requester databases =
      (.ok (cell.toJson.asF64.getD ⟨0⟩),
        ⟨.free, Function.update databases.map "balances" (some ⟨conn⟩)⟩) := by
  rw [queryBalance, Exec.bind_of_ok (sqlQuery_eq hreads hfree hdb hquery),
    answeredRows, readRows_write hreads hrows]
  rfl

omit [GuestTexts] in
theorem queryRecipient_eq (hreads : RestoresFloats Restored)
    {databases : Databases C} {db : SqlDatabase C} {recipient : String}
    {row : List SqlValue} {rows : List (List SqlValue)} {conn : C}
    (hrows : RowsRestored Restored (row :: rows))
    (hfree : databases.lock = .free)
    (hdb : databases.map "balances" = some db)
    (hquery : Sqlite.query db.conn "SELECT 1 FROM accounts WHERE did = ?"
      [.text recipient] = (.returned (.ok (row :: rows)), conn)) :
    queryRecipient recipient databases = (.ok true,
      ⟨.free, Function.update databases.map "balances" (some ⟨conn⟩)⟩) := by
  rw [queryRecipient, Exec.bind_of_ok (sqlQuery_eq hreads hfree hdb hquery),
    answeredRows, readRows_write hreads hrows]
  rfl

/-- A positive amount that the database serves. -/
theorem doAttest_of_serves (hreads : RestoresFloats Restored)
    {databases : Databases C} {text : String} {request : AttestationRequest}
    {args : TransferArgs}
    (hanswers : AnswersRestored Restored databases request.requester
      args.recipient)
    (hrequest : (SerdeJsonText.syntaxTree text).bind TransferRequest.decode =
      some ⟨request.requester, request.programCid, args⟩)
    (hpositive : args.amount.le ⟨0⟩ = false)
    (hserves : Serves databases request.requester args.recipient args.amount) :
    (doAttest text databases).1 =
      .ok (AttestResult.toTree
        ⟨"valid", some (args.transaction request), none⟩).write := by
  obtain ⟨db, cell, cells, rows, conn, row, rows', conn', hfree, hdb, hbalance,
    hcovers, hrecipient⟩ := hserves
  have hsecond : Function.update databases.map "balances"
      (some ⟨conn⟩ : Option (SqlDatabase C)) "balances" = some ⟨conn⟩ :=
    Function.update_self _ _ _
  obtain ⟨hrows, hrows'⟩ := hanswers db _ conn hdb hbalance
  let later : Databases C :=
    ⟨.free, Function.update databases.map "balances" (some ⟨conn⟩)⟩
  have hlock : later.lock = .free := rfl
  have hknown := queryRecipient_eq hreads (hrows' _ _ hrecipient) hlock
    hsecond hrecipient
  rw [doAttest, hrequest]
  simp only [hpositive]
  rw [if_neg (by decide),
    Exec.bind_of_ok (queryBalance_eq hreads hrows hfree hdb hbalance),
    hcovers, if_neg (by decide), Exec.bind_of_ok hknown]
  rfl

/-- Arguments that the guest cannot read are refused. -/
theorem execute_of_decode_none (hreads : RestoresFloats Restored)
    {request : AttestationRequest} (hargs : request.args.Survives Restored)
    (hdecode : TransferArgs.decode request.args = none)
    (databases : Databases C) :
    ∃ reason, (execute request databases).1 = .ok (.invalid reason) := by
  obtain ⟨text, hattest, htree⟩ := attest_toJson (C := C) hreads hargs
  have hrequest : (SerdeJsonText.syntaxTree text).bind
      TransferRequest.decode = none := by
    rw [htree, Option.bind_some, decode_requestTree, hdecode]
    rfl
  refine ⟨s!"parse error: {GuestTexts.transferError text}", ?_⟩
  refine execute_fst hattest ?_ (decodeResult_invalid hreads _)
  rw [doAttest, hrequest]
  rfl

/-- A request that the guest reads is served as far as its amount is
positive. -/
theorem execute_of_decode_some (hreads : RestoresFloats Restored)
    {databases : Databases C} {request : AttestationRequest}
    {args : TransferArgs}
    (hanswers : AnswersRestored Restored databases request.requester
      args.recipient)
    (hrestored : RequestRestored Restored request)
    (hdecode : TransferArgs.decode request.args = some args)
    (hserves : Serves databases request.requester args.recipient args.amount) :
    (execute request databases).1 =
      .ok (if args.amount.le ⟨0⟩ then .invalid "amount must be positive"
        else .valid (args.transaction request)) := by
  obtain ⟨text, hattest, htree⟩ :=
    attest_toJson (C := C) hreads hrestored.args
  have hrequest : (SerdeJsonText.syntaxTree text).bind TransferRequest.decode =
      some ⟨request.requester, request.programCid, args⟩ := by
    rw [htree, Option.bind_some, decode_requestTree, hdecode]
    rfl
  cases hpositive : args.amount.le ⟨0⟩ with
  | true =>
      refine execute_fst hattest ?_ (decodeResult_invalid hreads _)
      rw [doAttest, hrequest]
      simp only [hpositive, if_true]
      rfl
  | false =>
      exact execute_fst hattest
        (doAttest_of_serves hreads hanswers hrequest hpositive hserves)
        (decodeResult_valid hreads (TransferArgs.amount_isFinite
          hrestored.args.representable hdecode)
          (hrestored.amount args hdecode))

end Guest

section Compiled

variable {C : Type} [Sqlite C] [SerdeJson] [SerdeJsonText] [FloatFormat]
  [GuestTexts]

/-- A run of compiled code does what the guest's source says, and leaves the
result where it points to. -/
def Compiles (run : Run) (requestBytes : Bytes) (databases : Databases C) :
    Prop :=
  match attest requestBytes databases with
  | (.ok bytes, after) =>
      ∃ packed state, run.run databases = (.ok (.i64 packed, state), after) ∧
        state.memory.isSome ∧
        state.read (unpackPtr packed) (unpackLen packed) = some bytes
  | (.error stop, after) => run.run databases = (.error stop, after)

/-- A call of a module whose `attest` is the guest's is `execute`. -/
theorem execute_module_eq {module : WasmModule} {request : AttestationRequest}
    {databases started allocated : Databases C} {value : Val}
    {fresh state before : Instance} {requestPtr : UInt32}
    {guestAlloc : Instance → UInt32 → Run}
    {entry : Instance → UInt32 → UInt32 → Run}
    (hstart : module.instantiate.run databases = (.ok (value, fresh), started))
    (halloc : module.guestAlloc = some guestAlloc)
    (hcall : (guestAlloc fresh (UInt32.ofNat request.toJson.length)).run
      started = (.ok (.i32 requestPtr, state), allocated))
    (hwrite : state.write requestPtr request.toJson.length request.toJson =
      some before)
    (hattest : module.attest = some entry)
    (hguest : Compiles (entry before requestPtr
      (UInt32.ofNat request.toJson.length)) request.toJson allocated) :
    module.execute request databases = execute request allocated := by
  rw [WasmModule.execute_eq hstart halloc hcall hwrite hattest, execute]
  rw [Compiles] at hguest
  cases hrun : (attest request.toJson : Exec C String Bytes) allocated with
  | mk result after =>
      rw [hrun] at hguest
      cases result with
      | ok bytes =>
          obtain ⟨packed, state, hcalled, hmemory, hread⟩ := hguest
          obtain ⟨data, hdata⟩ := Option.isSome_iff_exists.mp hmemory
          rw [Exec.bind_of_ok (Exec.mapErr_of_ok hcalled),
            Exec.bind_of_ok (Exec.mapErr_of_ok hrun)]
          simp only [readResult, hdata]
          rw [Exec.bind_of_ok (Val.unwrapI64_i64 _ _),
            Exec.bind_of_ok (Exec.okOr_some _ _ _), hread,
            Exec.bind_of_ok (Exec.orPanic_some _ _)]
      | error stop =>
          obtain ⟨stopped, hstopped⟩ := Exec.mapErr_of_error
            (fun e => CraftSecError.programError s!"WASM execution failed: {e}")
            stop
          rw [Exec.bind_of_error (hstopped hguest),
            Exec.bind_of_error (hstopped hrun)]

end Compiled

end TransferGuest

end CraftSec
