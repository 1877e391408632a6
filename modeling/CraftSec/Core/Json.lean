/-
JSON values as serde_json holds them, its compact serializer, and the
conversions between strings and UTF-8 bytes.
-/
import CraftSec.Core.Scalar
import CraftSec.Lib.Utf8

namespace CraftSec

/-- An `f64` by its bit pattern. -/
structure F64 where
  bits : UInt64
deriving Repr, DecidableEq

/-- Neither infinite nor a NaN: the exponent field is not all ones. -/
def F64.isFinite (x : F64) : Bool :=
  x.bits >>> 52 &&& 0x7ff != 0x7ff

/-- The shortest decimal of a finite float, written by the crate `ryu`. -/
class FloatFormat where
  formatFinite : F64 → Bytes

/-- `serde_json::Number`. -/
inductive JsonNumber where
  | posInt (n : UInt64)
  | negInt (n : Int64)
  | float (x : F64)
deriving DecidableEq

/-- `serde_json::Value`; an object lists its members by increasing key. -/
inductive Json where
  | null
  | bool (b : Bool)
  | number (n : JsonNumber)
  | string (s : String)
  | array (items : List Json)
  | object (members : List (String × Json))

/-- `str::as_bytes`. -/
def utf8 (s : String) : Bytes :=
  s.toList.flatMap String.utf8EncodeChar

/-- `String::from_utf8_lossy`. -/
def fromUtf8Lossy (bytes : Bytes) : String :=
  String.ofList (Utf8.decodeLossy none bytes)

/-- `str::from_utf8`, with the text of its error. -/
def fromUtf8 (bytes : Bytes) : Except String String :=
  match Utf8.decodeStrict none 0 0 bytes with
  | .ok cs => .ok (String.ofList cs)
  | .error ⟨start, some len⟩ =>
      .error s!"invalid utf-8 sequence of {len} bytes from index {start}"
  | .error ⟨start, none⟩ =>
      .error s!"incomplete utf-8 byte sequence from index {start}"

theorem fromUtf8Lossy_utf8 (s : String) : fromUtf8Lossy (utf8 s) = s := by
  rw [fromUtf8Lossy, utf8, Utf8.decodeLossy_utf8Encode, String.ofList_toList]

theorem fromUtf8_utf8 (s : String) : fromUtf8 (utf8 s) = .ok s := by
  rw [fromUtf8, utf8, Utf8.decodeStrict_utf8Encode]
  exact congrArg _ String.ofList_toList

/-- A hexadecimal digit as serde_json writes it, in lower case. -/
def hexDigit (n : UInt8) : UInt8 :=
  if n < 10 then 0x30 + n else 0x57 + n

/-- `hex::encode`. -/
def hexEncode (bytes : Bytes) : String :=
  String.ofList (bytes.flatMap fun byte =>
    [Char.ofNat (hexDigit (byte / 16)).toNat,
     Char.ofNat (hexDigit (byte % 16)).toNat])

/-- serde_json's escape table.  Only the control bytes, the quote and the
backslash are escaped; multi-byte characters are copied. -/
def escapeByte (byte : UInt8) : Bytes :=
  if byte = 0x08 then [0x5c, 0x62]
  else if byte = 0x09 then [0x5c, 0x74]
  else if byte = 0x0a then [0x5c, 0x6e]
  else if byte = 0x0c then [0x5c, 0x66]
  else if byte = 0x0d then [0x5c, 0x72]
  else if byte = 0x22 then [0x5c, 0x22]
  else if byte = 0x5c then [0x5c, 0x5c]
  else if byte < 0x20 then
    [0x5c, 0x75, 0x30, 0x30, hexDigit (byte / 16), hexDigit (byte % 16)]
  else [byte]

def writeString (s : String) : Bytes :=
  0x22 :: (utf8 s).flatMap escapeByte ++ [0x22]

def writeU64 (n : UInt64) : Bytes :=
  (Nat.toDigits 10 n.toNat).map fun digit => UInt8.ofNat digit.toNat

/-- Floats without a decimal form become `null`. -/
def writeF64 [FloatFormat] (x : F64) : Bytes :=
  if x.isFinite then FloatFormat.formatFinite x else utf8 "null"

/-- One `key:value` pair of an object. -/
def writeMember (member : String × Bytes) : Bytes :=
  writeString member.1 ++ 0x3a :: member.2

/-- The fields of a derived struct, in declaration order. -/
def writeObject (members : List (String × Bytes)) : Bytes :=
  0x7b :: List.intercalate [0x2c] (members.map writeMember) ++ [0x7d]

/-- Negative numbers are the only ones serde_json holds as an `i64`. -/
def writeI64 (n : Int64) : Bytes :=
  if n < 0 then 0x2d :: writeU64 (UInt64.ofNat n.toInt.natAbs)
  else writeU64 n.toUInt64

def JsonNumber.write [FloatFormat] : JsonNumber → Bytes
  | .posInt n => writeU64 n
  | .negInt n => writeI64 n
  | .float x => writeF64 x

def writeArray (items : List Bytes) : Bytes :=
  0x5b :: List.intercalate [0x2c] items ++ [0x5d]

mutual

/-- `serde_json::to_string` of a value. -/
def Json.write [FloatFormat] : Json → Bytes
  | .null => utf8 "null"
  | .bool true => utf8 "true"
  | .bool false => utf8 "false"
  | .number n => n.write
  | .string s => writeString s
  | .array items => writeArray (Json.writeItems items)
  | .object members => writeObject (Json.writeMembers members)

def Json.writeItems [FloatFormat] : List Json → List Bytes
  | [] => []
  | item :: rest => item.write :: Json.writeItems rest

def Json.writeMembers [FloatFormat] :
    List (String × Json) → List (String × Bytes)
  | [] => []
  | (key, value) :: rest => (key, value.write) :: Json.writeMembers rest

end

end CraftSec
