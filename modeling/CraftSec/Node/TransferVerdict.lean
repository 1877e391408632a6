/-
What the transfer guest makes of any request and any database: it approves
exactly the transfers of a positive amount that its database serves, and
otherwise rejects or traps.  Its queries leave the databases alone as far as
SELECT statements do.
-/
import CraftSec.Node.ReadOnly
import CraftSec.Node.TransferGuest

namespace CraftSec

namespace F64

theorem isNan_eq_false {x : F64} (hfinite : x.isFinite = true) :
    x.isNan = false := by
  rw [isNan, hfinite]
  rfl

/-- Zero is below every finite float that is not at most zero. -/
theorem zero_lt_of_not_le {x : F64} (hfinite : x.isFinite = true)
    (hpositive : x.le ⟨0⟩ = false) : (⟨0⟩ : F64).lt x = true := by
  have hzero : (⟨0⟩ : F64).isNan = false := by decide
  have hnan := isNan_eq_false hfinite
  rw [le, hzero, hnan] at hpositive
  rw [lt, hzero, hnan]
  simp only [Bool.not_false, Bool.true_and, decide_eq_false_iff_not,
    decide_eq_true_eq] at hpositive ⊢
  omega

end F64

namespace TransferGuest

section Decidable

variable {C : Type} [Sqlite C]

/-- `Serves`, by asking the database. -/
def asksServed (databases : Databases C) (requester recipient : String)
    (amount : F64) : Bool :=
  match databases.lock, databases.map "balances" with
  | .free, some db =>
      match Sqlite.query db.conn "SELECT balance FROM accounts WHERE did = ?"
        [.text requester] with
      | (.returned (.ok ((cell :: _) :: _)), conn) =>
          !(cell.toJson.asF64.getD ⟨0⟩).lt amount &&
            match Sqlite.query conn "SELECT 1 FROM accounts WHERE did = ?"
              [.text recipient] with
            | (.returned (.ok (_ :: _)), _) => true
            | _ => false
      | _ => false
  | _, _ => false

theorem asksServed_iff {databases : Databases C}
    {requester recipient : String} {amount : F64} :
    asksServed databases requester recipient amount = true ↔
      Serves databases requester recipient amount := by
  constructor
  · intro hasks
    rw [asksServed] at hasks
    split at hasks
    next db hfree hdb =>
      split at hasks
      next cell cells rows conn hbalance =>
        obtain ⟨hcovers, hknown⟩ := Bool.and_eq_true_iff.mp hasks
        split at hknown
        next row rows' conn' hrecipient =>
          exact ⟨db, cell, cells, rows, conn, row, rows', conn', hfree, hdb,
            hbalance, by simpa using hcovers, hrecipient⟩
        next => cases hknown
      next => cases hasks
    next => cases hasks
  · rintro ⟨db, cell, cells, rows, conn, row, rows', conn', hfree, hdb,
      hbalance, hcovers, hrecipient⟩
    simp [asksServed, hfree, hdb, hbalance, hcovers, hrecipient]

instance (databases : Databases C) (requester recipient : String)
    (amount : F64) : Decidable (Serves databases requester recipient amount) :=
  decidable_of_iff _ asksServed_iff

end Decidable

section Guest

/-- The guest's statements. -/
def selects : List String :=
  ["SELECT balance FROM accounts WHERE did = ?",
    "SELECT 1 FROM accounts WHERE did = ?"]

/-- The guest's two statements return on the account database, and leave it as
it was. -/
def SelectsOnlyRead {C : Type} [Sqlite C] (databases : Databases C) : Prop :=
  ∀ (db : SqlDatabase C), databases.map "balances" = some db →
    ∀ sql ∈ selects, ∀ did : String, ∃ answer,
      Sqlite.query db.conn sql [.text did] = (.returned answer, db.conn)

variable {C : Type} [Sqlite C] [SerdeJson] [SerdeJsonText] [FloatFormat]
  [LawfulFloatFormat] {Restored : F64 → Prop}

/-- A query of the guest ends with rows, and leaves the databases as they were.
The rows are the database's, or none where there is no database or no answer. -/
theorem exists_sqlQuery_eq (hreads : RestoresFloats Restored)
    {databases : Databases C} (hselects : SelectsOnlyRead databases)
    (hfree : databases.lock = .free) {sql : String} (hsql : sql ∈ selects)
    (did : String) :
    ∃ rows,
      sqlQuery "balances" sql (params did) databases =
        (.ok (fromUtf8Lossy (rowsTree rows).write), databases) ∧
      (rows = [] ∨ ∃ db, databases.map "balances" = some db ∧
        Sqlite.query db.conn sql [.text did] =
          (.returned (.ok rows), db.conn)) := by
  cases hdb : databases.map "balances" with
  | none =>
      refine ⟨[], ?_, Or.inl rfl⟩
      have hwork : queryIn "balances" sql (params did) databases.map =
          (.returned (utf8 "[]"), databases.map) := by
        rw [queryIn, hdb]
      rw [sqlQuery, queryDatabase,
        Exec.bind_of_ok (Exec.underLock_of_returned hfree hwork), ← hfree]
      rfl
  | some db =>
      obtain ⟨answer, hquery⟩ := hselects db hdb sql hsql did
      have hsame : Databases.mk .free
          (Function.update databases.map "balances" (some ⟨db.conn⟩)) =
            databases := by
        rw [Function.update_eq_self_iff.mpr hdb.symm, ← hfree]
      have hrun := sqlQuery_eq hreads hfree hdb hquery
      rw [hsame] at hrun
      refine ⟨answeredRows answer, hrun, ?_⟩
      cases answer with
      | ok rows => exact Or.inr ⟨db, rfl, hquery⟩
      | error e => exact Or.inl rfl

/-- The recipient is known exactly when the database has rows for it. -/
theorem queryRecipient_cases (hreads : RestoresFloats Restored)
    {databases : Databases C} (hselects : SelectsOnlyRead databases)
    (hfree : databases.lock = .free) {recipient : String}
    (hanswer : ∀ db rows, databases.map "balances" = some db →
      Sqlite.query db.conn "SELECT 1 FROM accounts WHERE did = ?"
        [.text recipient] = (.returned (.ok rows), db.conn) →
      RowsRestored Restored rows) :
    ∃ known,
      queryRecipient recipient databases = (.ok known, databases) ∧
      (known = true → ∃ db row rows, databases.map "balances" = some db ∧
        Sqlite.query db.conn "SELECT 1 FROM accounts WHERE did = ?"
          [.text recipient] = (.returned (.ok (row :: rows)), db.conn)) := by
  obtain ⟨rows, hquery, hrows⟩ := exists_sqlQuery_eq hreads hselects hfree
    (List.mem_cons_of_mem _ List.mem_cons_self) recipient
  have hrestored : RowsRestored Restored rows := by
    rcases hrows with rfl | ⟨db, hdb, hrow⟩
    · exact List.forall_mem_nil _
    · exact hanswer db rows hdb hrow
  refine ⟨!rows.isEmpty, ?_, ?_⟩
  · rw [queryRecipient, Exec.bind_of_ok hquery,
      readRows_write hreads hrestored]
    cases rows with
    | nil => rfl
    | cons row rows => rfl
  · intro hknown
    cases rows with
    | nil => cases hknown
    | cons row rows =>
        obtain ⟨db, hdb, hanswer⟩ := hrows.resolve_left (List.cons_ne_nil _ _)
        exact ⟨db, row, rows, hdb, hanswer⟩

variable [GuestTexts]

/-- The guest did not approve. -/
def Declined (outcome : Except (Stop String) Bytes) : Prop :=
  (∃ reason, outcome = .ok (invalid reason)) ∨
    ∃ message, outcome = .error (.err message)

/-- A positive amount that the database does not serve: the balance is missing,
unreadable or too low, or nobody has the recipient's name. -/
theorem doAttest_of_not_serves (hreads : RestoresFloats Restored)
    {databases : Databases C} (hselects : SelectsOnlyRead databases)
    (hfree : databases.lock = .free) {text : String}
    {request : AttestationRequest} {args : TransferArgs}
    (hanswers : AnswersRestored Restored databases request.requester
      args.recipient)
    (hrequest : (SerdeJsonText.syntaxTree text).bind TransferRequest.decode =
      some ⟨request.requester, request.programCid, args⟩)
    (hfinite : args.amount.isFinite = true)
    (hpositive : args.amount.le ⟨0⟩ = false)
    (hserves : ¬ Serves databases request.requester args.recipient
      args.amount) :
    Declined (doAttest text databases : _ × Databases C).1 := by
  obtain ⟨rows, hquery, hrows⟩ := exists_sqlQuery_eq hreads hselects hfree
    List.mem_cons_self request.requester
  have hrestored : RowsRestored Restored rows := by
    rcases hrows with rfl | ⟨db, hdb, hrow⟩
    · exact List.forall_mem_nil _
    · exact (hanswers db rows db.conn hdb hrow).1
  have hbalance : (queryBalance request.requester : Exec C String F64)
      databases = balanceOf (some (rows.map fun row =>
        row.map SqlValue.toJson)) databases := by
    rw [queryBalance, Exec.bind_of_ok hquery, readRows_write hreads hrestored]
  rw [doAttest, hrequest]
  simp only [hpositive]
  rw [if_neg (by decide)]
  cases rows with
  | nil =>
      have hzero := F64.zero_lt_of_not_le hfinite hpositive
      have hrun : (queryBalance request.requester : Exec C String F64)
          databases = (.ok ⟨0⟩, databases) := hbalance
      rw [Exec.bind_of_ok hrun, hzero, if_pos rfl]
      exact Or.inl ⟨_, rfl⟩
  | cons row rest =>
      cases row with
      | nil =>
          have hrun : (queryBalance request.requester : Exec C String F64)
              databases = (.error (.err GuestTexts.trap), databases) :=
            hbalance
          rw [Exec.bind_of_error hrun]
          exact Or.inr ⟨_, rfl⟩
      | cons cell cells =>
          have hrun : (queryBalance request.requester : Exec C String F64)
              databases = (.ok (cell.toJson.asF64.getD ⟨0⟩), databases) :=
            hbalance
          rw [Exec.bind_of_ok hrun]
          cases hlow : (cell.toJson.asF64.getD ⟨0⟩).lt args.amount with
          | true =>
              rw [if_pos rfl]
              exact Or.inl ⟨_, rfl⟩
          | false =>
              rw [if_neg Bool.false_ne_true]
              obtain ⟨db, hdb, hanswer⟩ :=
                hrows.resolve_left (List.cons_ne_nil _ _)
              have hrecipient : ∀ own rows', databases.map "balances" =
                  some own → Sqlite.query own.conn
                    "SELECT 1 FROM accounts WHERE did = ?"
                    [.text args.recipient] =
                      (.returned (.ok rows'), own.conn) →
                  RowsRestored Restored rows' := by
                intro own rows' hown
                rw [hdb] at hown
                cases hown
                exact (hanswers db _ db.conn hdb hanswer).2 rows' db.conn
              obtain ⟨known, hrun', hknown⟩ :=
                queryRecipient_cases hreads hselects hfree hrecipient
              rw [Exec.bind_of_ok hrun']
              cases known with
              | false => exact Or.inl ⟨_, rfl⟩
              | true =>
                  obtain ⟨db', row', rows', hdb', hanswer'⟩ := hknown rfl
                  rw [hdb] at hdb'
                  cases hdb'
                  exact absurd ⟨db, cell, cells, rest, _, row', rows', _,
                    hfree, hdb, hanswer, hlow, hanswer'⟩ hserves

/-- What the way of a request over some databases relies on: the parser restores
the floats that it comes across, and the guest's statements return and only
read. -/
structure Conditions (Restored : F64 → Prop) (request : AttestationRequest)
    (databases : Databases C) : Prop where
  reads : RestoresFloats Restored
  restored : RequestRestored Restored request
  answers : ∀ args, TransferArgs.decode request.args = some args →
    AnswersRestored Restored databases request.requester args.recipient
  selects : SelectsOnlyRead databases

/-- What the node gets from the guest: its transaction where it approves, and
otherwise a rejection or an error, but never a panic. -/
theorem execute_cases {request : AttestationRequest}
    {databases : Databases C} (hcond : Conditions Restored request databases)
    (hfree : databases.lock = .free) :
    (∃ args, TransferArgs.decode request.args = some args ∧
      args.amount.le ⟨0⟩ = false ∧
      Serves databases request.requester args.recipient args.amount ∧
      (execute request databases).1 = .ok (.valid (args.transaction request))) ∨
    ((∀ args, TransferArgs.decode request.args = some args →
        args.amount.le ⟨0⟩ = false →
        ¬ Serves databases request.requester args.recipient args.amount) ∧
      ((∃ reason, (execute request databases).1 = .ok (.invalid reason)) ∨
        ∃ error, (execute request databases).1 = .error (.err error))) := by
  obtain ⟨hreads, hrestored, hanswers, hselects⟩ := hcond
  obtain ⟨text, hattest, htree⟩ :=
    attest_toJson (C := C) hreads hrestored.args
  cases hdecode : TransferArgs.decode request.args with
  | none =>
      right
      refine ⟨by simp, Or.inl ?_⟩
      exact execute_of_decode_none hreads hrestored.args hdecode databases
  | some args =>
      have hrequest : (SerdeJsonText.syntaxTree text).bind
          TransferRequest.decode =
          some ⟨request.requester, request.programCid, args⟩ := by
        rw [htree, Option.bind_some, decode_requestTree, hdecode]
        rfl
      cases hpositive : args.amount.le ⟨0⟩ with
      | true =>
          right
          refine ⟨?_, Or.inl ⟨"amount must be positive", ?_⟩⟩
          · intro other hother hpos
            cases hother
            rw [hpositive] at hpos
            cases hpos
          · refine execute_fst hattest ?_ (decodeResult_invalid hreads _)
            rw [doAttest, hrequest]
            simp only [hpositive, if_true]
            rfl
      | false =>
          by_cases hserves : Serves databases request.requester args.recipient
              args.amount
          · left
            have hvalid := execute_of_decode_some hreads
              (hanswers args hdecode) hrestored hdecode hserves
            rw [hpositive, if_neg Bool.false_ne_true] at hvalid
            exact ⟨args, rfl, hpositive, hserves, hvalid⟩
          · right
            refine ⟨?_, ?_⟩
            · intro other hother _
              cases hother
              exact hserves
            · have hfinite := TransferArgs.amount_isFinite
                hrestored.args.representable hdecode
              rcases doAttest_of_not_serves hreads hselects hfree
                (hanswers args hdecode) hrequest hfinite hpositive hserves with
                ⟨reason, hinvalid⟩ | ⟨message, htrap⟩
              · exact Or.inl ⟨reason, execute_fst hattest hinvalid
                  (decodeResult_invalid hreads reason)⟩
              · right
                have hpair : doAttest text databases =
                    (.error (.err message), (doAttest text databases).2) :=
                  Prod.ext htrap rfl
                have hmapped : Exec.mapErr (fun e =>
                    CraftSecError.programError
                      s!"WASM execution failed: {e}")
                    (attest request.toJson) databases =
                    (.error (.err (.programError
                      s!"WASM execution failed: {message}")),
                      (doAttest text databases).2) := by
                  rw [hattest, Exec.mapErr, hpair]
                refine ⟨.programError s!"WASM execution failed: {message}", ?_⟩
                rw [execute, Exec.bind_of_error hmapped]

/-- The transfer of a positive amount that a request asks for. -/
def requestedTransfer (request : AttestationRequest) : Option TransferArgs :=
  (TransferArgs.decode request.args).filter fun args => !args.amount.le ⟨0⟩

omit [Sqlite C] [SerdeJson] [SerdeJsonText] [FloatFormat] [LawfulFloatFormat]
  [GuestTexts] in
theorem requestedTransfer_eq_some {request : AttestationRequest}
    {args : TransferArgs} :
    requestedTransfer request = some args ↔
      TransferArgs.decode request.args = some args ∧
        args.amount.le ⟨0⟩ = false := by
  rw [requestedTransfer, Option.filter_eq_some_iff, Bool.not_eq_true']

end Guest

section Frame

variable {C : Type} [Sqlite C]

variable [SerdeJson] [SerdeJsonText] [FloatFormat] [LawfulFloatFormat]
  {Restored : F64 → Prop}

theorem sqlQuery_keeps (hreads : RestoresFloats Restored)
    {databases : Databases C} (hselects : SelectsOnlyRead databases)
    (hfree : databases.lock = .free) {sql : String} (hsql : sql ∈ selects)
    (did : String) :
    (sqlQuery "balances" sql (params did)).Keeps databases := by
  obtain ⟨rows, hquery, -⟩ :=
    exists_sqlQuery_eq hreads hselects hfree hsql did
  rw [Exec.Keeps, hquery]

variable [GuestTexts]

omit [Sqlite C] [SerdeJson] [SerdeJsonText] [FloatFormat]
  [LawfulFloatFormat] in
theorem balanceOf_keeps (rows : Option (List (List Json)))
    (databases : Databases C) :
    (balanceOf rows : Exec C String F64).Keeps databases := by
  rcases rows with - | (- | ⟨- | ⟨cell, cells⟩, rows⟩)
  all_goals rfl

/-- A run of the guest leaves the databases as they were. -/
theorem doAttest_keeps (hreads : RestoresFloats Restored)
    {databases : Databases C} (hselects : SelectsOnlyRead databases)
    (hfree : databases.lock = .free) (text : String) :
    (doAttest text).Keeps databases := by
  rw [doAttest]
  split
  next => exact Exec.keeps_pure _ _
  next req _ =>
    split
    next => exact Exec.keeps_pure _ _
    next =>
      refine Exec.Keeps.bind ?_ fun balance _ => ?_
      · exact (sqlQuery_keeps hreads hselects hfree List.mem_cons_self _).bind
          fun _ _ => balanceOf_keeps _ _
      split
      next => exact Exec.keeps_pure _ _
      next =>
        refine Exec.Keeps.bind ?_ fun known _ => ?_
        · exact (sqlQuery_keeps hreads hselects hfree
            (List.mem_cons_of_mem _ List.mem_cons_self) _).bind
              fun _ _ => Exec.keeps_pure _ _
        split
        next => exact Exec.keeps_pure _ _
        next => exact Exec.keeps_pure _ _

theorem execute_keeps (hreads : RestoresFloats Restored)
    {databases : Databases C} (hselects : SelectsOnlyRead databases)
    (hfree : databases.lock = .free) (request : AttestationRequest) :
    (execute request).Keeps databases :=
  ((doAttest_keeps hreads hselects hfree _).mapErr _).bind
    fun _ _ => Exec.keeps_ofExcept _ _

end Frame

section Hosted

variable {C : Type} [Sqlite C] [SerdeJson] [SerdeJsonText] [FloatFormat]
  [GuestTexts]

/-- Nobody holds the registry's databases, and its module for the request is the
compiled guest: it starts and takes the request in without the databases, and
then does what the guest's source says. -/
def Hosts (registry : WasmProgramRegistry C) (request : AttestationRequest) :
    Prop :=
  registry.databases.lock = .free ∧
  ∃ module value fresh state before requestPtr guestAlloc entry,
    registry.modules request.programCid = some module ∧
      module.instantiate.run registry.databases =
        (.ok (value, fresh), registry.databases) ∧
      module.guestAlloc = some guestAlloc ∧
      (guestAlloc fresh (UInt32.ofNat request.toJson.length)).run
        registry.databases = (.ok (.i32 requestPtr, state),
          registry.databases) ∧
      state.write requestPtr request.toJson.length request.toJson =
        some before ∧
      module.attest = some entry ∧
      Compiles (entry before requestPtr
        (UInt32.ofNat request.toJson.length)) request.toJson registry.databases

/-- The registry calls the guest, and keeps its databases. -/
theorem Hosts.execute_eq [LawfulFloatFormat] {Restored : F64 → Prop}
    (hreads : RestoresFloats Restored) {registry : WasmProgramRegistry C}
    {request : AttestationRequest} (hhosts : Hosts registry request)
    (hselects : SelectsOnlyRead registry.databases) :
    registry.execute request =
      ((execute request registry.databases).1, registry) := by
  obtain ⟨hfree, module, value, fresh, state, before, requestPtr, guestAlloc,
    entry, hmodule, hstart, halloc, hcall, hwrite, hentry, hguest⟩ := hhosts
  have hexecute := execute_module_eq hstart halloc hcall hwrite hentry hguest
  have hkeeps : (execute request registry.databases).2 = registry.databases :=
    execute_keeps hreads hselects hfree request
  rw [WasmProgramRegistry.execute, hmodule]
  simp only [hexecute]
  generalize execute request registry.databases = result at hkeeps ⊢
  obtain ⟨result, after⟩ := result
  subst hkeeps
  rfl

end Hosted

end TransferGuest

end CraftSec
