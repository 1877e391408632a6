/-
Types with serde's two traits, and the way of a value through its JSON text.
A derived instance is put together from those of the fields, so what survives
the text is decided by the floats and the `Value`s a value holds.
-/
import CraftSec.Core.JsonText

namespace CraftSec

section Numbers

mutual

/-- The numbers in a tree. -/
def Json.numbers : Json → List JsonNumber
  | .number n => [n]
  | .array items => Json.numbersItems items
  | .object members => Json.numbersMembers members
  | _ => []

def Json.numbersItems : List Json → List JsonNumber
  | [] => []
  | item :: rest => item.numbers ++ Json.numbersItems rest

def Json.numbersMembers : List (String × Json) → List JsonNumber
  | [] => []
  | (_, value) :: rest => value.numbers ++ Json.numbersMembers rest

end

theorem Json.numbersItems_eq_flatMap (items : List Json) :
    Json.numbersItems items = items.flatMap Json.numbers := by
  induction items with
  | nil => rfl
  | cons item rest ih => rw [Json.numbersItems, ih, List.flatMap_cons]

mutual

/-- A value can be held exactly when its numbers can. -/
theorem Json.representable_iff_numbers : (value : Json) →
    (value.Representable ↔ ∀ n ∈ value.numbers, n.Representable)
  | .null => iff_of_true trivial (List.forall_mem_nil _)
  | .bool _ => iff_of_true trivial (List.forall_mem_nil _)
  | .string _ => iff_of_true trivial (List.forall_mem_nil _)
  | .number n => by
      rw [Json.Representable, Json.numbers, List.forall_mem_singleton]
  | .array items => Json.representableItems_iff_numbers items
  | .object members => Json.representableMembers_iff_numbers members

theorem Json.representableItems_iff_numbers : (items : List Json) →
    (Json.RepresentableItems items ↔
      ∀ n ∈ Json.numbersItems items, n.Representable)
  | [] => iff_of_true trivial (List.forall_mem_nil _)
  | item :: rest => by
      rw [Json.RepresentableItems, Json.numbersItems, List.forall_mem_append,
        item.representable_iff_numbers,
        Json.representableItems_iff_numbers rest]

theorem Json.representableMembers_iff_numbers :
    (members : List (String × Json)) →
      (Json.RepresentableMembers members ↔
        ∀ n ∈ Json.numbersMembers members, n.Representable)
  | [] => iff_of_true trivial (List.forall_mem_nil _)
  | (_, value) :: rest => by
      rw [Json.RepresentableMembers, Json.numbersMembers,
        List.forall_mem_append, value.representable_iff_numbers,
        Json.representableMembers_iff_numbers rest]

end

end Numbers

section Parser

variable (Restored : F64 → Prop)

/-- The number is one that serde_json can hold, and if it is a float then one
that the parser restores from its decimal. -/
def JsonNumber.Survives : JsonNumber → Prop
  | .posInt _ => True
  | .negInt n => n < 0
  | .float x => x.isFinite = true ∧ Restored x

/-- All numbers of the tree survive. -/
def Json.Survives (value : Json) : Prop :=
  ∀ n ∈ value.numbers, n.Survives Restored

/-- What is relied on of the parser where it reads into a struct: a tree that
was written is read back if its numbers survive.  Which floats do is left open,
since only a build with `float_roundtrip` restores all of them. -/
structure ReadsBack [FloatFormat] [SerdeJsonText] : Prop where
  syntaxTree_write : ∀ (text : String) (value : Json),
    value.Survives Restored → utf8 text = value.write →
      SerdeJsonText.syntaxTree text = some value

/-- The same where it reads into a `Value`, which sorts the members. -/
structure ReadsValues [FloatFormat] [SerdeJson] : Prop where
  fromStr_write : ∀ (text : String) (value : Json),
    value.Survives Restored → value.depth < 128 → utf8 text = value.write →
      SerdeJson.fromStr text = .ok value.normalize

/-- Both readers of a parser that restores these floats. -/
structure RestoresFloats [FloatFormat] [SerdeJson] [SerdeJsonText] : Prop
    extends ReadsBack Restored, ReadsValues Restored

variable {Restored}

section Texts

variable [FloatFormat] [LawfulFloatFormat] {value : Json}

theorem ReadsBack.syntaxTree_text [SerdeJsonText]
    (hreads : ReadsBack Restored) (hvalue : value.Survives Restored) :
    SerdeJsonText.syntaxTree (fromUtf8Lossy value.write) = some value :=
  hreads.syntaxTree_write _ value hvalue (utf8_fromUtf8Lossy_write value)

theorem ReadsValues.fromStr_text [SerdeJson]
    (hreads : ReadsValues Restored) (hvalue : value.Survives Restored)
    (hdepth : value.depth < 128) :
    SerdeJson.fromStr (fromUtf8Lossy value.write) = .ok value.normalize :=
  hreads.fromStr_write _ value hvalue hdepth (utf8_fromUtf8Lossy_write value)

end Texts

theorem JsonNumber.Survives.representable {n : JsonNumber}
    (hn : n.Survives Restored) : n.Representable := by
  cases n with
  | posInt n => trivial
  | negInt n => exact hn
  | float x => exact hn.1

theorem Json.Survives.representable {value : Json}
    (hvalue : value.Survives Restored) : value.Representable :=
  value.representable_iff_numbers.mpr fun n hn => (hvalue n hn).representable

/-- Where all floats are restored, what can be held survives. -/
theorem Json.survives_of_representable {value : Json}
    (hvalue : value.Representable) : value.Survives fun _ => True := by
  intro n hn
  have hrepresentable := value.representable_iff_numbers.mp hvalue n hn
  cases n with
  | posInt n => trivial
  | negInt n => exact hrepresentable
  | float x => exact ⟨hrepresentable, trivial⟩

/-- A parser that restores all floats. -/
theorem readsBack_of_lawful [FloatFormat] [SerdeJson] [SerdeJsonText]
    [LawfulSerdeJson] : ReadsBack fun _ => True where
  syntaxTree_write text value hvalue hwrite :=
    LawfulSerdeJson.syntaxTree_write text value hvalue.representable hwrite

theorem readsValues_of_lawful [FloatFormat] [SerdeJson] [SerdeJsonText]
    [LawfulSerdeJson] : ReadsValues fun _ => True where
  fromStr_write text value hvalue hdepth hwrite :=
    LawfulSerdeJson.fromStr_write text value hvalue.representable hdepth hwrite

theorem restoresFloats_of_lawful [FloatFormat] [SerdeJson] [SerdeJsonText]
    [LawfulSerdeJson] : RestoresFloats fun _ => True where
  toReadsBack := readsBack_of_lawful
  toReadsValues := readsValues_of_lawful

theorem survives_of_numbers_eq_nil {value : Json} (hnone : value.numbers = []) :
    value.Survives Restored := by
  intro n hn
  rw [hnone] at hn
  cases hn

theorem Json.survives_array_iff {items : List Json} :
    (Json.array items).Survives Restored ↔
      ∀ item ∈ items, item.Survives Restored := by
  constructor
  · intro hall item hitem n hn
    apply hall n
    rw [Json.numbers, Json.numbersItems_eq_flatMap]
    exact List.mem_flatMap.mpr ⟨item, hitem, hn⟩
  · intro hall n hn
    rw [Json.numbers, Json.numbersItems_eq_flatMap] at hn
    obtain ⟨item, hitem, hmem⟩ := List.mem_flatMap.mp hn
    exact hall item hitem n hmem

theorem Json.survives_object_iff {members : List (String × Json)} :
    (Json.object members).Survives Restored ↔
      ∀ member ∈ members, member.2.Survives Restored := by
  induction members with
  | nil =>
      exact ⟨fun _ _ hmem => absurd hmem List.not_mem_nil,
        fun _ => survives_of_numbers_eq_nil rfl⟩
  | cons member rest ih =>
      obtain ⟨key, value⟩ := member
      rw [List.forall_mem_cons, ← ih, Json.Survives, Json.numbers,
        Json.numbersMembers, List.forall_mem_append]
      rfl

end Parser

section Serde

/-- A type that serde writes and reads.  `tree` is what is written, with the
members of an object in the order of writing, and `decode` what is taken for a
value of the type.  The floats it writes itself are among its `amounts`, and
what it writes as it is held among its `values`. -/
class Serde (A : Type) where
  tree : A → Json
  decode : Json → Option A
  amounts : A → List F64
  values : A → List Json

variable {A B : Type} [Serde A] [Serde B]

/-- `serde_json::to_string`. -/
def toText [FloatFormat] (a : A) : String :=
  fromUtf8Lossy (Serde.tree a).write

variable (A) in
/-- `serde_json::from_str`, without the error. -/
def fromText [SerdeJsonText] (text : String) : Option A :=
  (SerdeJsonText.syntaxTree text).bind Serde.decode

variable (A) in
/-- A field of a struct that is read from a text. -/
def Json.field (value : Json) (count i : ℕ) (key : String) : Option A :=
  (value.textField count i key).bind Serde.decode

/-- The floats are finite, and no `Value` is nested deeper than the parser
goes, which counts the object around it. -/
def Fits (a : A) : Prop :=
  (∀ x ∈ Serde.amounts a, x.isFinite = true) ∧
    ∀ value ∈ Serde.values a, value.depth + 1 < 128

/-- The `Value`s are ones that serde_json holds, with members sorted by key,
and the finite floats are restored by the parser. -/
def Sendable (Restored : F64 → Prop) (a : A) : Prop :=
  (∀ x ∈ Serde.amounts a, x.isFinite = true → Restored x) ∧
    ∀ value ∈ Serde.values a, value.Survives Restored ∧ value.normalize = value

/-- What is read where a value was written: the value if it fits, and nothing
otherwise. -/
def ReadsOnly (a : A) (read : Option A) : Prop :=
  ∀ b, read = some b ↔ Fits a ∧ b = a

variable (A) in
/-- Reading undoes writing where it succeeds, and succeeds for the values that
fit. -/
class LawfulSerde : Prop where
  survives : ∀ {Restored : F64 → Prop} {a : A}, Sendable Restored a →
    (Serde.tree a).Survives Restored
  decode_tree : ∀ {Restored : F64 → Prop} {a : A}, Sendable Restored a →
    ReadsOnly a (Serde.decode (Serde.tree a))

variable (A) in
/-- The round trip of a type through its text. -/
def ReadBack [FloatFormat] [SerdeJsonText] (Restored : F64 → Prop) : Prop :=
  ∀ a : A, Sendable Restored a → ReadsOnly a (fromText A (toText a))

/-- The general round trip. -/
theorem readBack [FloatFormat] [LawfulFloatFormat] [SerdeJsonText]
    {Restored : F64 → Prop} (hreads : ReadsBack Restored) [LawfulSerde A] :
    ReadBack A Restored := by
  intro a hsend
  have htree := hreads.syntaxTree_text (LawfulSerde.survives hsend)
  rw [fromText, toText, htree, Option.bind_some]
  exact LawfulSerde.decode_tree hsend

theorem fits_of_none {a : A} (hamounts : Serde.amounts a = [])
    (hvalues : Serde.values a = []) : Fits a := by
  rw [Fits, hamounts, hvalues]
  exact ⟨fun _ hx => absurd hx List.not_mem_nil,
    fun _ hvalue => absurd hvalue List.not_mem_nil⟩

theorem ReadsOnly.of_fits {a : A} (hfits : Fits a) :
    ReadsOnly a (some a) := by
  intro b
  constructor
  · intro heq
    exact ⟨hfits, (Option.some.inj heq).symm⟩
  · rintro ⟨-, rfl⟩
    rfl

theorem ReadsOnly.of_not_fits {a : A} (hfits : ¬ Fits a) :
    ReadsOnly a none :=
  fun b => iff_of_false (Option.some_ne_none b).symm fun hb => hfits hb.1

/-- A value made of one part that may fail to be read, and of others that
never do, fails exactly with that part. -/
theorem ReadsOnly.map {b : B} {read : Option B} (hread : ReadsOnly b read)
    {f : B → A} (hfits : Fits (f b) ↔ Fits b) :
    ReadsOnly (f b) (read.map f) := by
  intro a
  rw [Option.map_eq_some_iff, hfits]
  constructor
  · rintro ⟨other, hother, rfl⟩
    obtain ⟨hb, rfl⟩ := (hread other).mp hother
    exact ⟨hb, rfl⟩
  · rintro ⟨hb, rfl⟩
    exact ⟨b, (hread b).mpr ⟨hb, rfl⟩, rfl⟩

end Serde

section Plain

variable (A : Type) [Serde A]

/-- A type that holds neither floats nor `Value`s. -/
class PlainSerde : Prop where
  amounts_eq : ∀ a : A, Serde.amounts a = []
  values_eq : ∀ a : A, Serde.values a = []
  survives : ∀ (Restored : F64 → Prop) (a : A),
    (Serde.tree a).Survives Restored
  decode_tree : ∀ a : A, Serde.decode (Serde.tree a) = some a

variable {A} [PlainSerde A]

theorem PlainSerde.fits (a : A) : Fits a :=
  fits_of_none (PlainSerde.amounts_eq a) (PlainSerde.values_eq a)

theorem PlainSerde.sendable (Restored : F64 → Prop) (a : A) :
    Sendable Restored a := by
  rw [Sendable, PlainSerde.amounts_eq, PlainSerde.values_eq]
  exact ⟨fun _ hx => absurd hx List.not_mem_nil,
    fun _ hvalue => absurd hvalue List.not_mem_nil⟩

instance : LawfulSerde A where
  survives _ := PlainSerde.survives _ _
  decode_tree {_ a} _ := by
    rw [PlainSerde.decode_tree]
    exact .of_fits (PlainSerde.fits a)

/-- Values of a plain type are always read back. -/
theorem PlainSerde.fromText_toText [FloatFormat] [LawfulFloatFormat]
    [SerdeJsonText] {Restored : F64 → Prop} (hreads : ReadsBack Restored)
    (a : A) : fromText A (toText a) = some a :=
  (readBack hreads a (PlainSerde.sendable Restored a) a).mpr
    ⟨PlainSerde.fits a, rfl⟩

end Plain

section Fields

instance : Serde String where
  tree s := .string s
  decode := Json.asStr
  amounts _ := []
  values _ := []

instance : PlainSerde String where
  amounts_eq _ := rfl
  values_eq _ := rfl
  survives _ _ := survives_of_numbers_eq_nil rfl
  decode_tree _ := rfl

theorem survives_posInt (Restored : F64 → Prop) (n : UInt64) :
    (Json.number (.posInt n)).Survives Restored := by
  intro m hm
  rw [Json.numbers, List.mem_singleton] at hm
  rw [hm]
  trivial

instance : Serde UInt64 where
  tree n := .number (.posInt n)
  decode := Json.decodeU64
  amounts _ := []
  values _ := []

instance : PlainSerde UInt64 where
  amounts_eq _ := rfl
  values_eq _ := rfl
  survives := survives_posInt
  decode_tree _ := rfl

/-- What a derived deserializer takes for a `u8`. -/
def Json.decodeU8 : Json → Option UInt8
  | .number (.posInt n) => if n.toNat < 2 ^ 8 then some n.toUInt8 else none
  | _ => none

instance : Serde UInt8 where
  tree n := .number (.posInt n.toUInt64)
  decode := Json.decodeU8
  amounts _ := []
  values _ := []

theorem decodeU8_number (n : UInt8) :
    (Json.number (.posInt n.toUInt64)).decodeU8 = some n := by
  have hlt : n.toUInt64.toNat < 2 ^ 8 := by
    rw [UInt8.toNat_toUInt64]
    exact n.toNat_lt
  rw [Json.decodeU8, if_pos hlt, UInt64.toUInt8, UInt8.toNat_toUInt64]
  simp

instance : PlainSerde UInt8 where
  amounts_eq _ := rfl
  values_eq _ := rfl
  survives _ _ := survives_posInt _ _
  decode_tree := decodeU8_number

/-- A float without a decimal form is written as `null`, which is not read. -/
instance : Serde F64 where
  tree x := if x.isFinite then .number (.float x) else .null
  decode := Json.decodeF64
  amounts x := [x]
  values _ := []

instance : LawfulSerde F64 where
  survives {Restored x} hsend := by
    change Json.Survives Restored (if x.isFinite then _ else _)
    split
    next hfinite =>
      intro n hn
      rw [Json.numbers, List.mem_singleton] at hn
      rw [hn]
      exact ⟨hfinite, hsend.1 x List.mem_cons_self hfinite⟩
    next => exact survives_of_numbers_eq_nil rfl
  decode_tree {Restored x} _ := by
    change ReadsOnly x
      (if x.isFinite then Json.number (.float x) else .null).decodeF64
    split
    next hfinite =>
      apply ReadsOnly.of_fits
      refine ⟨fun y hy => ?_, fun _ hvalue => absurd hvalue List.not_mem_nil⟩
      rwa [List.mem_singleton.mp hy]
    next hinfinite =>
      exact .of_not_fits fun hfits =>
        hinfinite (hfits.1 x List.mem_cons_self)

/-- A `Value` in a field of a struct.  The parser stops at a nesting of 128. -/
instance : Serde Json where
  tree value := value
  decode value := if value.depth + 1 < 128 then some value.normalize else none
  amounts _ := []
  values value := [value]

instance : LawfulSerde Json where
  survives {Restored value} hsend := (hsend.2 value List.mem_cons_self).1
  decode_tree {Restored value} hsend := by
    have hnormal : value.normalize = value :=
      (hsend.2 value List.mem_cons_self).2
    change ReadsOnly value
      (if value.depth + 1 < 128 then some value.normalize else none)
    rw [hnormal]
    split
    next hdepth =>
      apply ReadsOnly.of_fits
      refine ⟨fun _ hx => absurd hx List.not_mem_nil, fun other hother => ?_⟩
      rwa [List.mem_singleton.mp hother]
    next hdeep =>
      exact .of_not_fits fun hfits => hdeep (hfits.2 value List.mem_cons_self)

variable {A B : Type} [Serde A] [Serde B]

/-- `Vec<A>`. -/
instance : Serde (List A) where
  tree items := .array (items.map Serde.tree)
  decode
    | .array items => items.mapM Serde.decode
    | _ => none
  amounts items := items.flatMap Serde.amounts
  values items := items.flatMap Serde.values

/-- `(A, B)`. -/
instance : Serde (A × B) where
  tree pair := .array [Serde.tree pair.1, Serde.tree pair.2]
  decode
    | .array [first, second] => do
        return (← Serde.decode first, ← Serde.decode second)
    | _ => none
  amounts pair := Serde.amounts pair.1 ++ Serde.amounts pair.2
  values pair := Serde.values pair.1 ++ Serde.values pair.2

variable [PlainSerde A] [PlainSerde B]

theorem mapM_decode_tree (items : List A) :
    (items.map Serde.tree).mapM Serde.decode = some items := by
  induction items with
  | nil => rfl
  | cons item rest ih =>
      rw [List.map_cons, List.mapM_cons, PlainSerde.decode_tree, ih]
      rfl

instance : PlainSerde (List A) where
  amounts_eq items := by
    change items.flatMap Serde.amounts = []
    exact List.flatMap_eq_nil_iff.mpr fun a _ => PlainSerde.amounts_eq a
  values_eq items := by
    change items.flatMap Serde.values = []
    exact List.flatMap_eq_nil_iff.mpr fun a _ => PlainSerde.values_eq a
  survives Restored items := by
    apply Json.survives_array_iff.mpr
    intro item hitem
    obtain ⟨a, -, rfl⟩ := List.mem_map.mp hitem
    exact PlainSerde.survives Restored a
  decode_tree := mapM_decode_tree

instance : PlainSerde (A × B) where
  amounts_eq pair := by
    change Serde.amounts pair.1 ++ Serde.amounts pair.2 = []
    rw [PlainSerde.amounts_eq, PlainSerde.amounts_eq, List.append_nil]
  values_eq pair := by
    change Serde.values pair.1 ++ Serde.values pair.2 = []
    rw [PlainSerde.values_eq, PlainSerde.values_eq, List.append_nil]
  survives Restored pair := by
    apply Json.survives_array_iff.mpr
    rw [List.forall_mem_cons, List.forall_mem_singleton]
    exact ⟨PlainSerde.survives Restored pair.1,
      PlainSerde.survives Restored pair.2⟩
  decode_tree pair := by
    change (do return (← Serde.decode (Serde.tree pair.1),
      ← Serde.decode (Serde.tree pair.2))) = some pair
    rw [PlainSerde.decode_tree, PlainSerde.decode_tree]
    rfl

/-- `[u8; n]`. -/
instance (n : ℕ) : Serde (Vector UInt8 n) where
  tree bytes := Serde.tree bytes.toList
  decode value := do
    let bytes : List UInt8 ← Serde.decode value
    if hlength : bytes.length = n then
      return ⟨bytes.toArray, hlength⟩
    else none
  amounts _ := []
  values _ := []

instance (n : ℕ) : PlainSerde (Vector UInt8 n) where
  amounts_eq _ := rfl
  values_eq _ := rfl
  survives Restored bytes := PlainSerde.survives Restored bytes.toList
  decode_tree bytes := by
    change (do
      let bytes : List UInt8 ← Serde.decode (Serde.tree bytes.toList)
      if hlength : bytes.length = n then
        return (⟨bytes.toArray, hlength⟩ : Vector UInt8 n)
      else none) = some bytes
    rw [PlainSerde.decode_tree, Option.bind_eq_bind, Option.bind_some,
      dif_pos bytes.length_toList]
    exact congrArg some (Vector.toArray_inj.mp (Array.toArray_toList))

end Fields

end CraftSec
