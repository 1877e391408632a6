/-
JSON values on their way through the database.  A guest's parameters are bound
as SQL values and come back as JSON; what comes back from there is what was
bound, and goes through unchanged from then on.
-/
import CraftSec.Core.JsonReference
import CraftSec.Core.Serde
import CraftSec.Node.Sql

namespace CraftSec

section Numbers

theorem toNat_toUInt64_lt {n : Int64} (hnonneg : ¬ n < 0) :
    n.toUInt64.toNat < 2 ^ 63 := by
  rw [Int64.toNat_toUInt64_of_le (Int64.not_lt.mp hnonneg)]
  exact Int64.toNatClampNeg_lt n

/-- Integers that are held as `i64` are bound as they are. -/
theorem ofI64_of_asI64 {n : JsonNumber} (hn : n.Representable) {i : Int64}
    (hi : n.asI64 = some i) : JsonNumber.ofI64 i = n := by
  cases n with
  | posInt n =>
      rw [JsonNumber.asI64] at hi
      split at hi
      next hlt =>
        cases hi
        have htoInt : n.toInt64.toInt = n.toNat := by
          have hsmall : 2 * n.toBitVec.toNat < 2 ^ 64 := by
            change 2 * n.toNat < 2 ^ 64
            omega
          exact BitVec.toInt_eq_toNat_of_lt hsmall
        have hle : ¬ n.toInt64 < 0 := by
          rw [Int64.lt_iff_toInt_lt, htoInt]
          exact not_lt.mpr (Int.natCast_nonneg _)
        rw [JsonNumber.ofI64, if_neg hle, UInt64.toUInt64_toInt64]
      next => cases hi
  | negInt n =>
      cases hi
      exact if_pos hn
  | float x => cases hi

end Numbers

namespace Json

variable [FloatFormat]

/-- A value as it comes back from the database. -/
def bound (value : Json) : Json := (SqlValue.ofJson value).toJson

/-- Values that SQL has of its own: no booleans, arrays or objects, and no
integers beyond an `i64`. -/
def IsSql : Json → Prop
  | .null => True
  | .string _ => True
  | .number (.posInt n) => n.toNat < 2 ^ 63
  | .number _ => True
  | _ => False

omit [FloatFormat] in
theorem ofI64_isSql (n : Int64) : (Json.number (.ofI64 n)).IsSql ∧
    (Json.number (.ofI64 n)).Representable := by
  rw [JsonNumber.ofI64]
  split
  next hnegative => exact ⟨trivial, hnegative⟩
  next hnonneg => exact ⟨toNat_toUInt64_lt hnonneg, trivial⟩

/-- What comes back is what SQL has of its own. -/
theorem isSql_bound {value : Json} (hvalue : value.Representable) :
    value.bound.IsSql ∧ value.bound.Representable := by
  cases value with
  | null => exact ⟨trivial, trivial⟩
  | bool b => exact ofI64_isSql _
  | string s => exact ⟨trivial, trivial⟩
  | array items => exact ⟨trivial, trivial⟩
  | object members => exact ⟨trivial, trivial⟩
  | number n =>
      have hfinite : n.asF64.isFinite = true := JsonNumber.asF64_isFinite hvalue
      rw [bound, SqlValue.ofJson]
      cases n.asI64 with
      | some i => exact ofI64_isSql i
      | none =>
          rw [SqlValue.toJson, if_pos hfinite]
          exact ⟨trivial, hfinite⟩

/-- And that comes back as it is. -/
theorem bound_of_isSql {value : Json} (hvalue : value.Representable)
    (hsql : value.IsSql) : value.bound = value := by
  cases value with
  | null => rfl
  | string s => rfl
  | bool b => exact absurd hsql id
  | array items => exact absurd hsql id
  | object members => exact absurd hsql id
  | number n =>
      rw [bound, SqlValue.ofJson]
      cases hi : n.asI64 with
      | some i => exact congrArg Json.number (ofI64_of_asI64 hvalue hi)
      | none =>
          cases n with
          | posInt n =>
              have hlt : n.toNat < 2 ^ 63 := hsql
              rw [JsonNumber.asI64, if_pos hlt] at hi
              cases hi
          | negInt n => cases hi
          | float x => exact if_pos hvalue

theorem bound_eq_iff {value : Json} (hvalue : value.Representable) :
    value.bound = value ↔ value.IsSql := by
  constructor
  · intro hsame
    rw [← hsame]
    exact (isSql_bound hvalue).1
  · exact bound_of_isSql hvalue

/-- What comes back is not nested. -/
theorem bound_flat (value : Json) :
    value.bound.normalize = value.bound ∧ value.bound.depth = 0 := by
  rw [bound]
  cases SqlValue.ofJson value with
  | null => exact ⟨rfl, rfl⟩
  | integer n => exact ⟨rfl, rfl⟩
  | text s => exact ⟨rfl, rfl⟩
  | blob bytes => exact ⟨rfl, rfl⟩
  | real x =>
      rw [SqlValue.toJson]
      split
      next => exact ⟨rfl, rfl⟩
      next => exact ⟨rfl, rfl⟩

end Json

section Echo

variable {C : Type} [Sqlite C] [SerdeJson] [FloatFormat]

/-- The statement gives the parameters that guests can bind back as its only
row. -/
def Echoes (db : SqlDatabase C) (sql : String) (count : ℕ) : Prop :=
  ∀ values : List Json, values.length = count →
    (∀ value ∈ values, value.Representable) →
    Sqlite.query db.conn sql (values.map .ofJson) =
      (.returned (.ok [values.map .ofJson]), db.conn)

/-- What a guest reads when it passes these parameters. -/
def SqlDatabase.ask (db : SqlDatabase C) (sql : String) (values : List Json) :
    CallOutcome (Except String Json) :=
  (db.query sql (fromUtf8Lossy (Json.array values).write)).1.map
    fun rows => SerdeJson.fromStr (fromUtf8Lossy rows)

variable [LawfulFloatFormat] {Restored : F64 → Prop}

/-- A list of values that are read as they are is read as it is. -/
theorem fromStr_array (hreads : ReadsValues Restored) {values : List Json}
    (hsurvive : ∀ value ∈ values, value.Survives Restored)
    (hnormal : ∀ value ∈ values, value.normalize = value)
    (hdepth : ∀ value ∈ values, value.depth ≤ 126) :
    SerdeJson.fromStr (fromUtf8Lossy (Json.array values).write) =
      .ok (.array values) := by
  have hread := hreads.fromStr_text (Json.survives_array_iff.mpr hsurvive)
    (Nat.lt_succ_of_le (Nat.succ_le_succ (Json.depthItems_le hdepth)))
  rw [hread, Json.normalize, Json.normalizeItems_eq_self hnormal]

theorem SqlDatabase.ask_eq (hreads : ReadsValues Restored)
    {db : SqlDatabase C} {sql : String} {values : List Json}
    (hecho : Echoes db sql values.length)
    (hsurvive : ∀ value ∈ values, value.Survives Restored ∧
      value.bound.Survives Restored)
    (hnormal : ∀ value ∈ values, value.normalize = value)
    (hdepth : ∀ value ∈ values, value.depth ≤ 126) :
    db.ask sql values =
      .returned (.ok (.array [.array (values.map Json.bound)])) := by
  have hparams : SqlDatabase.queryParams
      (fromUtf8Lossy (Json.array values).write) = values := by
    rw [SqlDatabase.queryParams, fromStr_array hreads
      (fun value hvalue => (hsurvive value hvalue).1) hnormal hdepth]
  have hrow := hecho values rfl fun value hvalue =>
    (hsurvive value hvalue).1.representable
  have hback : (values.map SqlValue.ofJson).map SqlValue.toJson =
      values.map Json.bound := List.map_map
  have hbound : ∀ value ∈ values.map Json.bound,
      value.Survives Restored ∧ value.normalize = value ∧ value.depth = 0 := by
    rw [List.forall_mem_map]
    exact fun value hvalue => ⟨(hsurvive value hvalue).2, value.bound_flat⟩
  rw [ask, query, hparams]
  simp only [hrow, CallOutcome.map, rowsText, List.map_singleton, hback]
  apply congrArg CallOutcome.returned
  apply fromStr_array hreads
  · rw [List.forall_mem_singleton]
    exact Json.survives_array_iff.mpr fun value hvalue =>
      (hbound value hvalue).1
  · rw [List.forall_mem_singleton, Json.normalize,
      Json.normalizeItems_eq_self fun value hvalue =>
        (hbound value hvalue).2.1]
  · rw [List.forall_mem_singleton]
    have hzero : Json.depthItems (values.map Json.bound) ≤ 0 :=
      Json.depthItems_le fun value hvalue =>
        ((hbound value hvalue).2.2).le
    exact Nat.succ_le_succ (hzero.trans (Nat.zero_le _))

/-- A guest that has its parameters echoed reads them as they came back, which
is as it passed them exactly if SQL has them all of its own.  Passing on what
it read changes nothing more. -/
theorem echo_exact_iff (hreads : ReadsValues Restored)
    {db : SqlDatabase C} {sql : String} {values : List Json}
    (hecho : Echoes db sql values.length)
    (hsurvive : ∀ value ∈ values, value.Survives Restored ∧
      value.bound.Survives Restored)
    (hnormal : ∀ value ∈ values, value.normalize = value)
    (hdepth : ∀ value ∈ values, value.depth ≤ 126) :
    ∃ read : List Json,
      db.ask sql values = .returned (.ok (.array [.array read])) ∧
      (read = values ↔ ∀ value ∈ values, value.IsSql) ∧
      db.ask sql read = .returned (.ok (.array [.array read])) := by
  have hown : ∀ value ∈ values, value.bound.bound = value.bound := by
    intro value hvalue
    obtain ⟨hsql, hrepresentable⟩ :=
      Json.isSql_bound (hsurvive value hvalue).1.representable
    exact Json.bound_of_isSql hrepresentable hsql
  have hstable : (values.map Json.bound).map Json.bound =
      values.map Json.bound := by
    rw [List.map_map]
    exact List.map_congr_left hown
  have hsame : values.map Json.bound = values ↔
      ∀ value ∈ values, value.IsSql := by
    calc values.map Json.bound = values
        ↔ values.map Json.bound = values.map id := by rw [List.map_id]
      _ ↔ ∀ value ∈ values, value.bound = value := List.map_inj_left
      _ ↔ ∀ value ∈ values, value.IsSql := forall₂_congr fun value hvalue =>
          Json.bound_eq_iff (hsurvive value hvalue).1.representable
  have hagain : db.ask sql (values.map Json.bound) =
      .returned (.ok
        (.array [.array ((values.map Json.bound).map Json.bound)])) := by
    apply SqlDatabase.ask_eq hreads
    · rwa [List.length_map]
    · rw [List.forall_mem_map]
      intro value hvalue
      rw [hown value hvalue]
      exact ⟨(hsurvive value hvalue).2, (hsurvive value hvalue).2⟩
    · rw [List.forall_mem_map]
      exact fun value _ => value.bound_flat.1
    · rw [List.forall_mem_map]
      intro value _
      rw [value.bound_flat.2]
      exact Nat.zero_le 126
  rw [hstable] at hagain
  exact ⟨values.map Json.bound,
    SqlDatabase.ask_eq hreads hecho hsurvive hnormal hdepth, hsame, hagain⟩

/-- A database that answers every query with its parameters. -/
inductive Mirror where
  | mirror

instance : Sqlite Mirror where
  openInMemory := .mirror
  executeBatch conn _ := (.returned (.ok ()), conn)
  query conn _ params := (.returned (.ok [params]), conn)

omit [SerdeJson] [FloatFormat] [LawfulFloatFormat] in
/-- A nested list comes back as its text, and the text as it is. -/
theorem echo_exact_nested :
    letI := JsonReference.floatFormat
    letI := JsonReference.serdeJson
    let db : SqlDatabase Mirror := ⟨.mirror⟩
    ∃ read : List Json,
      db.ask "SELECT ?1" [.array [.null]] =
        .returned (.ok (.array [.array read])) ∧
      read ≠ [.array [.null]] ∧
      db.ask "SELECT ?1" read = .returned (.ok (.array [.array read])) := by
  let _ := JsonReference.floatFormat
  let _ := JsonReference.serdeJson
  let _ := JsonReference.serdeJsonText
  have _ := JsonReference.lawfulFloatFormat
  have _ := JsonReference.lawfulSerdeJson
  intro db
  have hnone : ∀ value ∈ [Json.array [.null]],
      value.Survives (fun _ => True) ∧
        value.bound.Survives (fun _ => True) := by
    rw [List.forall_mem_singleton]
    exact ⟨survives_of_numbers_eq_nil rfl, survives_of_numbers_eq_nil rfl⟩
  have hecho : Echoes db "SELECT ?1" [Json.array [.null]].length :=
    fun _ _ _ => rfl
  obtain ⟨read, hread, hsame, hagain⟩ := echo_exact_iff readsValues_of_lawful
    hecho hnone (by simp [Json.normalize, Json.normalizeItems])
    (by simp [Json.depth, Json.depthItems])
  have hnested : read ≠ [.array [.null]] := by
    intro heq
    exact hsame.mp heq _ List.mem_cons_self
  exact ⟨read, hread, hnested, hagain⟩

end Echo

end CraftSec
