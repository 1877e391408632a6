/-
JSON values on their way through a text.  serde_json writes a value as UTF-8
and reads the same value back: into a struct with the members as they are
written, into a `Value` with the members sorted by key.
-/
import CraftSec.Core.SigningBytes

namespace CraftSec

/-- `Number`s that serde_json can hold: floats are finite, and integers that are
not negative are held as `u64`. -/
def JsonNumber.Representable : JsonNumber → Prop
  | .posInt _ => True
  | .negInt n => n < 0
  | .float x => x.isFinite = true

mutual

/-- All numbers of a value are ones that serde_json can hold. -/
def Json.Representable : Json → Prop
  | .number n => n.Representable
  | .array items => Json.RepresentableItems items
  | .object members => Json.RepresentableMembers members
  | _ => True

def Json.RepresentableItems : List Json → Prop
  | [] => True
  | item :: rest => item.Representable ∧ Json.RepresentableItems rest

def Json.RepresentableMembers : List (String × Json) → Prop
  | [] => True
  | (_, value) :: rest => value.Representable ∧ Json.RepresentableMembers rest

end

mutual

/-- How deep arrays and objects are nested. -/
def Json.depth : Json → ℕ
  | .array items => Json.depthItems items + 1
  | .object members => Json.depthMembers members + 1
  | _ => 0

def Json.depthItems : List Json → ℕ
  | [] => 0
  | item :: rest => max item.depth (Json.depthItems rest)

def Json.depthMembers : List (String × Json) → ℕ
  | [] => 0
  | (_, value) :: rest => max value.depth (Json.depthMembers rest)

end

namespace Json

/-- Insert a new key in its place. -/
def insertMember (key : String) (value : Json) :
    List (String × Json) → List (String × Json)
  | [] => [(key, value)]
  | (key', value') :: rest =>
      if key < key' then (key, value) :: (key', value') :: rest
      else (key', value') :: insertMember key value rest

mutual

/-- The `Value` that holds a tree: members are sorted by key, and the last of
several members with one key counts. -/
def normalize : Json → Json
  | .array items => .array (normalizeItems items)
  | .object members => .object (normalizeMembers members)
  | value => value

def normalizeItems : List Json → List Json
  | [] => []
  | item :: rest => item.normalize :: normalizeItems rest

def normalizeMembers : List (String × Json) → List (String × Json)
  | [] => []
  | (key, value) :: rest =>
      let later := normalizeMembers rest
      if (later.lookup key).isSome then later
      else insertMember key value.normalize later

end

theorem lookup_cons_ite {A : Type} (key key' : String) (value : A)
    (rest : List (String × A)) :
    ((key, value) :: rest).lookup key' =
      if key' = key then some value else rest.lookup key' := by
  rw [List.lookup_cons]
  by_cases hkey : key' = key
  · rw [if_pos hkey, beq_iff_eq.mpr hkey]
  · rw [if_neg hkey, beq_eq_false_iff_ne.mpr hkey]

theorem lookup_insertMember (key key' : String) (value : Json)
    {members : List (String × Json)} (hnew : members.lookup key = none) :
    (insertMember key value members).lookup key' =
      if key' = key then some value else members.lookup key' := by
  induction members with
  | nil => exact lookup_cons_ite key key' value []
  | cons member rest ih =>
      obtain ⟨own, held⟩ := member
      rw [lookup_cons_ite] at hnew
      split at hnew
      next => cases hnew
      next hdistinct =>
        rw [insertMember]
        split
        next => exact lookup_cons_ite _ _ _ _
        next =>
          rw [lookup_cons_ite, lookup_cons_ite, ih hnew]
          by_cases hown : key' = own
          · rw [if_pos hown, if_neg, if_pos hown]
            rintro rfl
            exact hdistinct hown
          · rw [if_neg hown, if_neg hown]

theorem lookup_eq_none_of_not_mem {A : Type} {key : String}
    {members : List (String × A)} (habsent : key ∉ members.map Prod.fst) :
    members.lookup key = none := by
  induction members with
  | nil => rfl
  | cons member rest ih =>
      obtain ⟨own, held⟩ := member
      rw [List.map_cons, List.mem_cons, not_or] at habsent
      rw [lookup_cons_ite, if_neg habsent.1, ih habsent.2]

/-- Sorting the members does not change what is found under a key. -/
theorem lookup_normalizeMembers (key : String) {members : List (String × Json)}
    (hdistinct : (members.map Prod.fst).Nodup) :
    (normalizeMembers members).lookup key =
      (members.lookup key).map normalize := by
  induction members generalizing key with
  | nil => rfl
  | cons member rest ih =>
      obtain ⟨own, held⟩ := member
      rw [List.map_cons, List.nodup_cons] at hdistinct
      have hnew : (normalizeMembers rest).lookup own = none := by
        rw [ih own hdistinct.2, lookup_eq_none_of_not_mem hdistinct.1]
        rfl
      rw [normalizeMembers, hnew]
      change (insertMember own held.normalize (normalizeMembers rest)).lookup
        key = _
      rw [lookup_insertMember _ _ _ hnew, ih key hdistinct.2, lookup_cons_ite]
      split
      next => rfl
      next => rfl

/-- What the accessors and the deserializers find in a sorted object. -/
theorem getOrNull_normalize (key : String) (members : List (String × Json))
    (hdistinct : (members.map Prod.fst).Nodup) :
    (Json.object members).normalize.getOrNull key =
      ((members.lookup key).map normalize).getD .null :=
  congrArg (fun found => Option.getD found Json.null)
    (lookup_normalizeMembers key hdistinct)

theorem structField_normalize (count i : ℕ) (key : String)
    (members : List (String × Json))
    (hdistinct : (members.map Prod.fst).Nodup) :
    (Json.object members).normalize.structField count i key =
      (members.lookup key).map normalize :=
  lookup_normalizeMembers key hdistinct

theorem representableItems_iff {items : List Json} :
    RepresentableItems items ↔ ∀ item ∈ items, item.Representable := by
  induction items with
  | nil =>
      exact ⟨fun _ _ hmem => absurd hmem List.not_mem_nil, fun _ => trivial⟩
  | cons item rest ih =>
      rw [List.forall_mem_cons, ← ih]
      rfl

theorem representableMembers_iff {members : List (String × Json)} :
    RepresentableMembers members ↔
      ∀ member ∈ members, member.2.Representable := by
  induction members with
  | nil =>
      exact ⟨fun _ _ hmem => absurd hmem List.not_mem_nil, fun _ => trivial⟩
  | cons member rest ih =>
      rw [List.forall_mem_cons, ← ih]
      rfl

theorem depthItems_le {items : List Json} {bound : ℕ}
    (hall : ∀ item ∈ items, item.depth ≤ bound) : depthItems items ≤ bound := by
  induction items with
  | nil => exact Nat.zero_le bound
  | cons item rest ih =>
      exact max_le (hall item List.mem_cons_self)
        (ih fun other hmem => hall other (List.mem_cons_of_mem item hmem))

theorem normalizeItems_eq_self {items : List Json}
    (hall : ∀ item ∈ items, item.normalize = item) :
    normalizeItems items = items := by
  induction items with
  | nil => rfl
  | cons item rest ih =>
      rw [normalizeItems, hall item List.mem_cons_self,
        ih fun other hmem => hall other (List.mem_cons_of_mem item hmem)]

end Json

section Texts

/-- The bytes of a string. -/
def IsText (bytes : Bytes) : Prop :=
  ∃ s, utf8 s = bytes

theorem isText_utf8 (s : String) : IsText (utf8 s) := ⟨s, rfl⟩

theorem IsText.append {left right : Bytes} (hleft : IsText left)
    (hright : IsText right) : IsText (left ++ right) := by
  obtain ⟨s, rfl⟩ := hleft
  obtain ⟨s', rfl⟩ := hright
  exact ⟨s ++ s', utf8_append s s'⟩

theorem isText_of_ascii {bytes : Bytes} (hascii : ∀ byte ∈ bytes, byte < 0x80) :
    IsText bytes := by
  have hall : ∀ n < 0x80, String.utf8EncodeChar (Char.ofNat n) =
      [UInt8.ofNat n] := by
    decide +kernel
  refine ⟨String.ofList (bytes.map fun byte => Char.ofNat byte.toNat), ?_⟩
  rw [utf8, String.toList_ofList, List.flatMap_map]
  calc bytes.flatMap (fun byte =>
        String.utf8EncodeChar (Char.ofNat byte.toNat))
      = bytes.flatMap fun byte => [byte] := by
        apply List.flatMap_congr
        intro byte hbyte
        rw [hall _ (UInt8.lt_iff_toNat_lt.mp (hascii byte hbyte)),
          UInt8.ofNat_toNat]
    _ = bytes := List.flatMap_singleton' bytes

theorem isText_singleton {byte : UInt8} (hascii : byte < 0x80) :
    IsText [byte] := by
  apply isText_of_ascii
  intro other hother
  rwa [List.mem_singleton.mp hother]

theorem IsText.cons {byte : UInt8} {bytes : Bytes} (hascii : byte < 0x80)
    (hbytes : IsText bytes) : IsText (byte :: bytes) :=
  (isText_singleton hascii).append hbytes

theorem isText_flatMap {A : Type} {xs : List A} {f : A → Bytes}
    (htext : ∀ x ∈ xs, IsText (f x)) : IsText (xs.flatMap f) := by
  induction xs with
  | nil => exact isText_utf8 ""
  | cons x xs ih =>
      rw [List.flatMap_cons]
      exact (htext x List.mem_cons_self).append
        (ih fun y hy => htext y (List.mem_cons_of_mem x hy))

theorem isText_intercalate {pieces : List Bytes}
    (htext : ∀ piece ∈ pieces, IsText piece) :
    IsText (List.intercalate [0x2c] pieces) := by
  induction pieces with
  | nil => exact isText_utf8 ""
  | cons piece rest ih =>
      have hpiece := htext piece List.mem_cons_self
      cases rest with
      | nil => rwa [List.intercalate_singleton]
      | cons next rest =>
          rw [List.intercalate_cons_cons]
          exact (hpiece.append (isText_singleton (by decide))).append
            (ih fun y hy => htext y (List.mem_cons_of_mem piece hy))

theorem escapeByte_ascii {byte : UInt8} (hascii : byte < 0x80) :
    ∀ escaped ∈ escapeByte byte, escaped < 0x80 := by
  have hall : ∀ n < 0x80, ∀ escaped ∈ escapeByte (UInt8.ofNat n),
      escaped < 0x80 := by
    decide +kernel
  have hbyte := hall byte.toNat (UInt8.lt_iff_toNat_lt.mp hascii)
  rwa [UInt8.ofNat_toNat] at hbyte

theorem escapeByte_wide {byte : UInt8} (hwide : 0x80 ≤ byte) :
    escapeByte byte = [byte] := by
  have hall : ∀ n < 256, 0x80 ≤ UInt8.ofNat n →
      escapeByte (UInt8.ofNat n) = [UInt8.ofNat n] := by
    decide +kernel
  have hbyte := hall byte.toNat byte.toNat_lt
  rw [UInt8.ofNat_toNat] at hbyte
  exact hbyte hwide

/-- Escapes stay within ASCII, and other characters are not escaped. -/
theorem isText_escaped (c : Char) :
    IsText ((String.utf8EncodeChar c).flatMap escapeByte) := by
  by_cases hone : c.val.toNat ≤ 0x7f
  · have hchar : String.utf8EncodeChar c = [UInt8.ofNat c.val.toNat] := by
      rw [String.utf8EncodeChar]
      exact if_pos hone
    rw [hchar, List.flatMap_singleton]
    apply isText_of_ascii
    apply escapeByte_ascii
    rw [UInt8.lt_iff_toNat_lt, UInt8.toNat_ofNat', Nat.mod_eq_of_lt (by omega)]
    exact Nat.lt_succ_of_le hone
  · have hplain : (String.utf8EncodeChar c).flatMap escapeByte =
        String.utf8EncodeChar c := by
      calc (String.utf8EncodeChar c).flatMap escapeByte
          = (String.utf8EncodeChar c).flatMap fun byte => [byte] := by
            apply List.flatMap_congr
            intro byte hbyte
            exact escapeByte_wide
              (Utf8.le_of_mem_utf8EncodeChar (Nat.lt_of_not_le hone) hbyte)
        _ = String.utf8EncodeChar c := List.flatMap_singleton' _
    rw [hplain]
    refine ⟨String.ofList [c], ?_⟩
    rw [utf8, String.toList_ofList, List.flatMap_singleton]

theorem isText_writeString (s : String) : IsText (writeString s) := by
  rw [writeString, utf8, List.flatMap_assoc]
  apply IsText.append
  · exact IsText.cons (by decide) (isText_flatMap fun c _ => isText_escaped c)
  · exact isText_singleton (by decide)

theorem lt_of_isNumberByte {byte : UInt8} (hbyte : IsNumberByte byte) :
    byte < 0x80 := by
  have hall : ∀ n < 256, IsNumberByte (UInt8.ofNat n) →
      UInt8.ofNat n < 0x80 := by
    decide +kernel
  have hself := hall byte.toNat byte.toNat_lt
  rw [UInt8.ofNat_toNat] at hself
  exact hself hbyte

theorem isText_writeU64 (n : UInt64) : IsText (writeU64 n) :=
  isText_of_ascii fun _ hbyte =>
    lt_of_isNumberByte (isNumberByte_of_mem_digits hbyte)

theorem isText_writeObject {members : List (String × Bytes)}
    (htext : ∀ member ∈ members, IsText member.2) :
    IsText (writeObject members) := by
  rw [writeObject]
  refine IsText.append (IsText.cons (by decide) (isText_intercalate ?_))
    (isText_singleton (by decide))
  intro piece hpiece
  obtain ⟨member, hmember, rfl⟩ := List.mem_map.mp hpiece
  exact (isText_writeString member.1).append
    (IsText.cons (by decide) (htext member hmember))

theorem isText_writeArray {items : List Bytes}
    (htext : ∀ item ∈ items, IsText item) : IsText (writeArray items) :=
  IsText.append (IsText.cons (by decide) (isText_intercalate htext))
    (isText_singleton (by decide))

theorem isText_writeNumber [FloatFormat] [LawfulFloatFormat] (n : JsonNumber) :
    IsText n.write := by
  cases n with
  | posInt n => exact isText_writeU64 n
  | negInt n =>
      change IsText (writeI64 n)
      rw [writeI64]
      split
      next => exact IsText.cons (by decide) (isText_writeU64 _)
      next => exact isText_writeU64 _
  | float x =>
      change IsText (writeF64 x)
      rw [writeF64]
      split
      next hfinite =>
        exact isText_of_ascii fun byte hbyte => lt_of_isNumberByte
          (LawfulFloatFormat.isNumberByte x byte hfinite hbyte)
      next => exact isText_utf8 _

mutual

/-- A value is written as a string. -/
theorem isText_write [FloatFormat] [LawfulFloatFormat] :
    (value : Json) → IsText value.write
  | .null => isText_utf8 _
  | .bool true => isText_utf8 _
  | .bool false => isText_utf8 _
  | .number n => isText_writeNumber n
  | .string s => isText_writeString s
  | .array items => isText_writeArray (isText_writeItems items)
  | .object members => isText_writeObject (isText_writeMembers members)

theorem isText_writeItems [FloatFormat] [LawfulFloatFormat] :
    (items : List Json) → ∀ item ∈ Json.writeItems items, IsText item
  | [] => fun _ hitem => absurd hitem List.not_mem_nil
  | first :: rest =>
      List.forall_mem_cons.mpr ⟨isText_write first, isText_writeItems rest⟩

theorem isText_writeMembers [FloatFormat] [LawfulFloatFormat] :
    (members : List (String × Json)) →
      ∀ member ∈ Json.writeMembers members, IsText member.2
  | [] => fun _ hmember => absurd hmember List.not_mem_nil
  | (_, value) :: rest =>
      List.forall_mem_cons.mpr ⟨isText_write value, isText_writeMembers rest⟩

end

end Texts

/-- What is relied on of the parser: a value that was written is read back.
The tree of a text keeps its members as written; a `Value` sorts them, and its
parser stops at a nesting of 128. -/
class LawfulSerdeJson [FloatFormat] [SerdeJson] [SerdeJsonText] : Prop extends
    LawfulFloatFormat where
  syntaxTree_write : ∀ (text : String) (value : Json), value.Representable →
    utf8 text = value.write → SerdeJsonText.syntaxTree text = some value
  fromStr_write : ∀ (text : String) (value : Json), value.Representable →
    value.depth < 128 → utf8 text = value.write →
      SerdeJson.fromStr text = .ok value.normalize

section ReadBack

variable [FloatFormat] [LawfulFloatFormat]

/-- The text of a written value. -/
theorem utf8_fromUtf8Lossy_write (value : Json) :
    utf8 (fromUtf8Lossy value.write) = value.write := by
  obtain ⟨text, htext⟩ := isText_write value
  rw [← htext, fromUtf8Lossy_utf8]

theorem fromUtf8_write (value : Json) :
    fromUtf8 value.write = .ok (fromUtf8Lossy value.write) := by
  obtain ⟨text, htext⟩ := isText_write value
  rw [← htext, fromUtf8_utf8, fromUtf8Lossy_utf8]

end ReadBack

section Finite

theorem F64.isFinite_of_lt {n : ℕ} (hlt : n < 0x7ff * 2 ^ 52) :
    (⟨UInt64.ofNat n⟩ : F64).isFinite = true := by
  rw [F64.isFinite, bne_iff_ne]
  intro heq
  have hnat := congrArg UInt64.toNat heq
  change (n % 2 ^ 64) >>> 52 &&& (2 ^ 11 - 1) = 2 ^ 11 - 1 at hnat
  rw [Nat.and_two_pow_sub_one_eq_mod, Nat.shiftRight_eq_div_pow,
    Nat.mod_eq_of_lt (by omega)] at hnat
  omega

/-- The exponent of an integer stays far below the largest one. -/
theorem F64.ofU64_isFinite (n : UInt64) : (F64.ofU64 n).isFinite = true := by
  have hexponent : Nat.log2 n.toNat < 64 := by
    by_cases hzero : n.toNat = 0
    · rw [hzero]
      decide
    · exact (Nat.log2_lt hzero).mpr n.toNat_lt
  have hbelow : n.toNat < 2 ^ (Nat.log2 n.toNat + 1) := Nat.lt_log2_self
  rw [F64.ofU64]
  split
  next => rfl
  next =>
    split
    next hsmall =>
      apply F64.isFinite_of_lt
      have hmantissa : n.toNat * 2 ^ (52 - Nat.log2 n.toNat) < 2 ^ 53 := by
        calc n.toNat * 2 ^ (52 - Nat.log2 n.toNat)
            < 2 ^ (Nat.log2 n.toNat + 1) * 2 ^ (52 - Nat.log2 n.toNat) :=
              Nat.mul_lt_mul_of_pos_right hbelow (Nat.two_pow_pos _)
          _ = 2 ^ 53 := by
              rw [← Nat.pow_add]
              congr 1
              omega
      omega
    next hlarge =>
      apply F64.isFinite_of_lt
      have hmantissa : n.toNat / 2 ^ (Nat.log2 n.toNat - 52) < 2 ^ 53 := by
        apply Nat.div_lt_of_lt_mul
        rw [← Nat.pow_add]
        apply lt_of_lt_of_eq hbelow
        congr 1
        omega
      split
      next => omega
      next => omega

/-- The sign bit is not in the exponent field. -/
theorem F64.exponent_or_sign (bits : UInt64) :
    ((bits ||| 0x8000000000000000) >>> 52 &&& 0x7ff : UInt64) =
      bits >>> 52 &&& 0x7ff := by
  have hmask : ∀ i < 64, (0x7ff#64).getLsbD i = true →
      (0x8000000000000000#64).getLsbD (52 + i) = false := by
    decide
  have hshift : ∀ n : UInt64, (n >>> 52).toBitVec = n.toBitVec >>> 52 :=
    fun _ => rfl
  have hexponent : (0x7ff : UInt64).toBitVec = 0x7ff#64 := rfl
  have hsign : (0x8000000000000000 : UInt64).toBitVec =
      0x8000000000000000#64 := rfl
  apply UInt64.eq_of_toBitVec_eq
  apply BitVec.eq_of_getLsbD_eq
  intro i hi
  rw [UInt64.toBitVec_and, UInt64.toBitVec_and, hshift, hshift,
    UInt64.toBitVec_or, hexponent, hsign, BitVec.getLsbD_and,
    BitVec.getLsbD_and, BitVec.getLsbD_ushiftRight,
    BitVec.getLsbD_ushiftRight, BitVec.getLsbD_or]
  cases hbit : (0x7ff#64).getLsbD i with
  | false => rw [Bool.and_false, Bool.and_false]
  | true => rw [hmask i hi hbit, Bool.or_false]

theorem F64.ofI64_isFinite (n : Int64) : (F64.ofI64 n).isFinite = true := by
  have hmagnitude := F64.ofU64_isFinite (UInt64.ofNat n.toInt.natAbs)
  rw [F64.ofI64]
  split
  next =>
    rw [F64.isFinite] at hmagnitude ⊢
    rwa [F64.exponent_or_sign]
  next => exact hmagnitude

/-- A number becomes a finite float. -/
theorem JsonNumber.asF64_isFinite {n : JsonNumber} (hn : n.Representable) :
    n.asF64.isFinite = true := by
  cases n with
  | posInt n => exact F64.ofU64_isFinite n
  | negInt n => exact F64.ofI64_isFinite n
  | float x => exact hn

end Finite

end CraftSec
