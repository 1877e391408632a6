/-
The database stub behind the WASM host functions.  SQLite itself is a
parameter; parameters and rows cross it as serde_json values.
-/
import CraftSec.Core.Decode

namespace CraftSec

/-- `rusqlite::types::Value`. -/
inductive SqlValue where
  | null
  | integer (n : Int64)
  | real (x : F64)
  | text (s : String)
  | blob (bytes : Bytes)
deriving DecidableEq

/-- What becomes of a call into SQLite: a statement may run on for ever, and
the code around it may panic. -/
inductive CallOutcome (α : Type) where
  | returned (value : α)
  | panic
  | never
deriving DecidableEq

def CallOutcome.map {α β : Type} (f : α → β) : CallOutcome α → CallOutcome β
  | .returned value => .returned (f value)
  | .panic => .panic
  | .never => .never

/-- `rusqlite::Connection`.  `query` prepares the statement, runs it with the
parameters bound and collects the rows.  A call does what it does to the
connection it is made on, returned here as the statements leave it, and its
outcome depends on that connection's value alone: connections share no file
(no `ATTACH`), and what `random()` draws from is part of the connection.
Opening one in memory does not fail. -/
class Sqlite (C : Type) where
  openInMemory : C
  executeBatch : C → String → CallOutcome (Except String Unit) × C
  query : C → String → List SqlValue →
    CallOutcome (Except String (List (List SqlValue))) × C

/-- A parameter value.  `Number::to_string` is never reached, and a nested
value is passed as its JSON text. -/
def SqlValue.ofJson [FloatFormat] : Json → SqlValue
  | .string s => .text s
  | .number n =>
      match n.asI64 with
      | some i => .integer i
      | none => .real n.asF64
  | .bool b => .integer (if b then 1 else 0)
  | .null => .null
  | value => .text (fromUtf8Lossy value.write)

/-- A column of a row.  `json!` makes an infinite or NaN float `null`. -/
def SqlValue.toJson : SqlValue → Json
  | .null => .null
  | .integer n => .number (.ofI64 n)
  | .real x => if x.isFinite then .number (.float x) else .null
  | .text s => .string s
  | .blob bytes => .string (hexEncode bytes)

/-- `SqlDatabase`. -/
structure SqlDatabase (C : Type) where
  conn : C
deriving DecidableEq

namespace SqlDatabase

variable {C : Type} [Sqlite C]

def new : SqlDatabase C := ⟨Sqlite.openInMemory⟩

def execute (db : SqlDatabase C) (sql : String) :
    CallOutcome (Except String Unit) × SqlDatabase C :=
  let (outcome, conn) := Sqlite.executeBatch db.conn sql
  (outcome, ⟨conn⟩)

/-- The parameters of a query; anything but an array counts as none. -/
def queryParams [SerdeJson] (paramsJson : String) : List Json :=
  match SerdeJson.fromStr paramsJson with
  | .ok (.array params) => params
  | _ => []

variable [SerdeJson] [FloatFormat]

/-- The rows as JSON text, or `[]` on any error. -/
def rowsText : Except String (List (List SqlValue)) → Bytes
  | .ok rows =>
      (Json.array (rows.map fun row => .array (row.map SqlValue.toJson))).write
  | .error _ => utf8 "[]"

/-- `SqlDatabase::query`. -/
def query (db : SqlDatabase C) (sql paramsJson : String) :
    CallOutcome Bytes × SqlDatabase C :=
  let params := (queryParams paramsJson).map SqlValue.ofJson
  let (outcome, conn) := Sqlite.query db.conn sql params
  (outcome.map rowsText, ⟨conn⟩)

/-- The statement returns, on every connection it runs on, and leaves it as it
was. -/
def ReadOnlyStatement (C : Type) [Sqlite C] (sql paramsJson : String) : Prop :=
  ∀ db : SqlDatabase C, ∃ rows, db.query sql paramsJson = (.returned rows, db)

end SqlDatabase

end CraftSec
