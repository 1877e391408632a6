/-
A parser of compact JSON that reads back every written value, with a float
format that it can read.  It stands in for serde_json where statements about
every lawful parser are run.
-/
import CraftSec.Core.JsonText

namespace CraftSec

namespace JsonReference

/-- The bytes of a string up to its closing quote, and what follows it; `fuel`
bounds their number. -/
def parseChars : ℕ → Bytes → Option (Bytes × Bytes)
  | 0, _ => none
  | fuel + 1, text =>
      if text.head? = some 0x22 then some ([], text.tail)
      else if text = [] then none
      else
        (parseChars fuel (text.drop (escapedLength text))).map
          fun (bytes, rest) =>
            (unescapeByte (text.take (escapedLength text)) :: bytes, rest)

/-- A string behind its opening quote. -/
def parseString (text : Bytes) : Option (String × Bytes) := do
  let (bytes, rest) ← parseChars text.length text
  match fromUtf8 bytes with
  | .ok s => return (s, rest)
  | .error _ => none

/-- The bytes of a number in decimal. -/
def digits (n : ℕ) : Bytes :=
  (Nat.toDigits 10 n).map fun digit => UInt8.ofNat digit.toNat

def parseDigits (word : Bytes) : ℕ :=
  Nat.ofDigitChars 10 (word.map fun byte => Char.ofNat byte.toNat) 0

/-- The float one in its usual form, the others as their bits with an
exponent. -/
@[reducible]
def floatFormat : FloatFormat where
  formatFinite x :=
    if x.bits = 0x3ff0000000000000 then utf8 "1.0"
    else digits x.bits.toNat ++ [0x65, 0x30]

/-- A number, from all of its bytes. -/
def readNumber (word : Bytes) : JsonNumber :=
  if word = utf8 "1.0" then .float ⟨0x3ff0000000000000⟩
  else if 0x65 ∈ word then
    .float ⟨UInt64.ofNat (parseDigits (word.dropLast.dropLast))⟩
  else if word.head? = some 0x2d then
    .negInt (Int64.ofInt (-(parseDigits word.tail : ℤ)))
  else .posInt (UInt64.ofNat (parseDigits word))

/-- A word of the language. -/
def parseLiteral (word : Bytes) (value : Json) (text : Bytes) :
    Option (Json × Bytes) :=
  if text.take word.length = word then some (value, text.drop word.length)
  else none

mutual

/-- A value and what follows it; `fuel` bounds the depth of the calls. -/
def parseValue : ℕ → Bytes → Option (Json × Bytes)
  | 0, _ => none
  | fuel + 1, text =>
      match text with
      | [] => none
      | first :: rest =>
          if first = 0x22 then
            (parseString rest).map fun (s, rest) => (.string s, rest)
          else if first = 0x5b then
            if rest.head? = some 0x5d then some (.array [], rest.tail)
            else (parseItems fuel rest).map fun (items, rest) =>
              (.array items, rest)
          else if first = 0x7b then
            if rest.head? = some 0x7d then some (.object [], rest.tail)
            else (parseMembers fuel rest).map fun (members, rest) =>
              (.object members, rest)
          else if first = 0x6e then parseLiteral (utf8 "null") .null text
          else if first = 0x74 then parseLiteral (utf8 "true") (.bool true) text
          else if first = 0x66 then
            parseLiteral (utf8 "false") (.bool false) text
          else if IsNumberByte first then
            some (.number (readNumber (text.takeWhile (IsNumberByte ·))),
              text.dropWhile (IsNumberByte ·))
          else none

/-- The items of an array up to its closing bracket. -/
def parseItems : ℕ → Bytes → Option (List Json × Bytes)
  | 0, _ => none
  | fuel + 1, text => do
      let (item, rest) ← parseValue fuel text
      if rest.head? = some 0x2c then
        (parseItems fuel rest.tail).map fun (items, rest) =>
          (item :: items, rest)
      else if rest.head? = some 0x5d then some ([item], rest.tail)
      else none

/-- The members of an object up to its closing brace. -/
def parseMembers : ℕ → Bytes → Option (List (String × Json) × Bytes)
  | 0, _ => none
  | fuel + 1, text => do
      guard (text.head? = some 0x22)
      let (key, rest) ← parseString text.tail
      guard (rest.head? = some 0x3a)
      let (value, rest) ← parseValue fuel rest.tail
      if rest.head? = some 0x2c then
        (parseMembers fuel rest.tail).map fun (members, rest) =>
          ((key, value) :: members, rest)
      else if rest.head? = some 0x7d then some ([(key, value)], rest.tail)
      else none

end

/-- An escaped byte is read back. -/
theorem parseChars_escapeByte (byte : UInt8) (fuel : ℕ) (rest : Bytes) :
    parseChars (fuel + 1) (escapeByte byte ++ rest) =
      (parseChars fuel rest).map fun (bytes, rest) =>
        (byte :: bytes, rest) := by
  obtain ⟨first, tail, hescape, hfirst⟩ := exists_escapeByte_eq_cons byte
  have hlength := escapedLength_append byte rest
  rw [parseChars, hlength, List.take_left, List.drop_left,
    unescapeByte_escapeByte, if_neg, if_neg]
  · rw [hescape]
    simp
  · rw [hescape, List.cons_append, List.head?_cons]
    simpa using hfirst

theorem parseChars_flatMap (bytes rest : Bytes) {fuel : ℕ}
    (hfuel : bytes.length < fuel) :
    parseChars fuel (bytes.flatMap escapeByte ++ 0x22 :: rest) =
      some (bytes, rest) := by
  induction bytes generalizing fuel with
  | nil =>
      obtain ⟨fuel, rfl⟩ := Nat.exists_eq_add_of_lt hfuel
      rfl
  | cons byte bytes ih =>
      obtain ⟨spare, rfl⟩ := Nat.exists_eq_add_of_lt hfuel
      rw [List.flatMap_cons, List.append_assoc, parseChars_escapeByte,
        ih (by rw [List.length_cons]; omega)]
      rfl

theorem length_le_length_flatMap_escapeByte (bytes : Bytes) :
    bytes.length ≤ (bytes.flatMap escapeByte).length := by
  induction bytes with
  | nil => exact le_rfl
  | cons byte bytes ih =>
      obtain ⟨first, tail, hescape, -⟩ := exists_escapeByte_eq_cons byte
      rw [List.flatMap_cons, List.length_append, hescape, List.length_cons,
        List.length_cons]
      omega

/-- A written string is read back, behind its opening quote. -/
theorem parseString_writeString (s : String) (rest : Bytes) :
    ∃ text, writeString s ++ rest = 0x22 :: text ∧
      parseString text = some (s, rest) := by
  refine ⟨(utf8 s).flatMap escapeByte ++ 0x22 :: rest, ?_, ?_⟩
  · rw [writeString]
    simp
  · have hlength := length_le_length_flatMap_escapeByte (utf8 s)
    rw [parseString, parseChars_flatMap]
    · simp only [Option.bind_eq_bind, Option.bind_some, fromUtf8_utf8]
      rfl
    · rw [List.length_append, List.length_cons]
      omega

theorem parseDigits_digits (n : ℕ) : parseDigits (digits n) = n := by
  rw [parseDigits, digits, map_ofNat_digits, Nat.ofDigitChars_ten_toDigits]

theorem digits_bounds {n : ℕ} {byte : UInt8} (hbyte : byte ∈ digits n) :
    0x30 ≤ byte ∧ byte ≤ 0x39 := by
  obtain ⟨digit, hdigit, rfl⟩ := List.mem_map.mp hbyte
  rw [UInt8.le_iff_toNat_le, UInt8.le_iff_toNat_le, toNat_digit_byte hdigit]
  exact toNat_bounds_of_mem_toDigits hdigit

/-- Neither a point nor an exponent nor a sign is a digit. -/
theorem not_mem_digits {n : ℕ} {byte : UInt8}
    (hbyte : byte < 0x30 ∨ 0x39 < byte) : byte ∉ digits n := by
  intro hmem
  obtain ⟨hlow, hhigh⟩ := digits_bounds hmem
  rcases hbyte with hbelow | habove
  · exact absurd hlow (UInt8.not_le.mpr hbelow)
  · exact absurd hhigh (UInt8.not_le.mpr habove)

theorem digits_ne_nil (n : ℕ) : digits n ≠ [] := by
  rw [digits, Ne, List.map_eq_nil_iff]
  exact Nat.toDigits_ne_nil

theorem readNumber_digits (n : ℕ) :
    readNumber (digits n) = .posInt (UInt64.ofNat n) := by
  have hone : digits n ≠ utf8 "1.0" := by
    intro heq
    have hpoint : (0x2e : UInt8) ∈ digits n := by
      rw [heq]
      decide
    exact not_mem_digits (by decide) hpoint
  have hsign : (digits n).head? ≠ some 0x2d := by
    intro hhead
    exact not_mem_digits (by decide) (List.mem_of_head? hhead)
  rw [readNumber, if_neg hone, if_neg (not_mem_digits (by decide)),
    if_neg hsign, parseDigits_digits]

theorem readNumber_negative (n : ℕ) :
    readNumber (0x2d :: digits n) = .negInt (Int64.ofInt (-(n : ℤ))) := by
  have hone : (0x2d :: digits n : Bytes) ≠ utf8 "1.0" := by
    intro heq
    exact absurd (List.cons.inj heq).1 (by decide)
  have hexponent : (0x65 : UInt8) ∉ (0x2d :: digits n : Bytes) := by
    rw [List.mem_cons, not_or]
    exact ⟨by decide, not_mem_digits (by decide)⟩
  rw [readNumber, if_neg hone, if_neg hexponent, List.head?_cons,
    if_pos rfl, List.tail_cons, parseDigits_digits]

theorem readNumber_exponent (n : ℕ) :
    readNumber (digits n ++ [0x65, 0x30]) = .float ⟨UInt64.ofNat n⟩ := by
  have hexponent : (0x65 : UInt8) ∈ digits n ++ [0x65, 0x30] := by simp
  have hone : digits n ++ [0x65, 0x30] ≠ utf8 "1.0" := by
    intro heq
    rw [heq] at hexponent
    revert hexponent
    decide
  have hword : (digits n ++ [0x65, 0x30]).dropLast.dropLast = digits n := by
    simp [List.dropLast_append_of_ne_nil]
  rw [readNumber, if_neg hone, if_pos hexponent, hword, parseDigits_digits]

/-- A written number is read back. -/
theorem readNumber_write {n : JsonNumber} (hn : n.Representable) :
    letI := floatFormat
    readNumber n.write = n := by
  let _ := floatFormat
  cases n with
  | posInt n =>
      have hread := readNumber_digits n.toNat
      rwa [UInt64.ofNat_toNat] at hread
  | negInt n =>
      have hneg : n < 0 := hn
      have hnegative : n.toInt < 0 := Int64.lt_iff_toInt_lt.mp hneg
      have hlow := n.le_toInt
      have hmagnitude : (UInt64.ofNat n.toInt.natAbs).toNat =
          n.toInt.natAbs := by
        have hsmall : n.toInt.natAbs ≤ 2 ^ 63 := by omega
        exact UInt64.toNat_ofNat_of_lt' (lt_of_le_of_lt hsmall (by decide))
      have hread := readNumber_negative n.toInt.natAbs
      have hback : -(n.toInt.natAbs : ℤ) = n.toInt := by omega
      rw [hback, Int64.ofInt_toInt] at hread
      change readNumber (writeI64 n) = _
      rw [writeI64, if_pos hneg, writeU64, hmagnitude]
      exact hread
  | float x =>
      have hfinite : x.isFinite = true := hn
      change readNumber (writeF64 x) = _
      rw [writeF64, if_pos hfinite]
      change readNumber (if x.bits = 0x3ff0000000000000 then utf8 "1.0"
        else digits x.bits.toNat ++ [0x65, 0x30]) = _
      split
      next hone =>
        rw [readNumber, if_pos rfl, ← hone]
      next =>
        rw [readNumber_exponent, UInt64.ofNat_toNat]

/-- The float format prints numbers, and different ones differently. -/
theorem lawfulFloatFormat : @LawfulFloatFormat floatFormat := by
  let _ := floatFormat
  have hone : ∀ byte ∈ utf8 "1.0", IsNumberByte byte := by decide +kernel
  constructor
  · intro x byte _ hbyte
    change byte ∈ (if x.bits = 0x3ff0000000000000 then utf8 "1.0"
      else digits x.bits.toNat ++ [0x65, 0x30]) at hbyte
    split at hbyte
    next => exact hone byte hbyte
    next =>
      rcases List.mem_append.mp hbyte with hdigit | htail
      · exact isNumberByte_of_mem_digits hdigit
      · rcases List.mem_pair.mp htail with rfl | rfl
        · decide
        · decide
  · intro x x' hfinite hfinite' heq
    -- both are read back from the same word
    have hread : ∀ y : F64, y.isFinite = true →
        readNumber (FloatFormat.formatFinite y) = .float y := by
      intro y hy
      have hwritten := readNumber_write (n := .float y) hy
      change readNumber (writeF64 y) = _ at hwritten
      rwa [writeF64, if_pos hy] at hwritten
    have hsame := hread x hfinite
    rw [heq, hread x' hfinite'] at hsame
    exact (JsonNumber.float.inj hsame).symm

/-- What follows a value in a text. -/
def EndsNumber (rest : Bytes) : Prop :=
  ∀ byte ∈ rest.head?, ¬ IsNumberByte byte

theorem endsNumber_cons {byte : UInt8} (hbyte : ¬ IsNumberByte byte)
    (rest : Bytes) : EndsNumber (byte :: rest) := by
  intro first hfirst
  cases hfirst
  exact hbyte

theorem takeWhile_number {word rest : Bytes}
    (hword : ∀ byte ∈ word, IsNumberByte byte) (hrest : EndsNumber rest) :
    (word ++ rest).takeWhile (IsNumberByte ·) = word ∧
      (word ++ rest).dropWhile (IsNumberByte ·) = rest := by
  have hall : ∀ byte ∈ word, decide (IsNumberByte byte) = true :=
    fun byte hbyte => decide_eq_true (hword byte hbyte)
  rw [List.takeWhile_append_of_pos hall, List.dropWhile_append_of_pos hall]
  cases rest with
  | nil => exact ⟨List.append_nil word, rfl⟩
  | cons first rest =>
      have hfirst : ¬ IsNumberByte first := hrest first rfl
      rw [List.takeWhile_cons_of_neg (by simpa using hfirst),
        List.dropWhile_cons_of_neg (by simpa using hfirst)]
      exact ⟨List.append_nil word, rfl⟩

/-- A written number is a word of number bytes. -/
theorem exists_write_number {n : JsonNumber} (hn : n.Representable) :
    letI := floatFormat
    (∀ byte ∈ n.write, IsNumberByte byte) ∧ n.write ≠ [] := by
  let _ := floatFormat
  have hlawful := lawfulFloatFormat
  cases n with
  | posInt n =>
      exact ⟨fun _ hbyte => isNumberByte_of_mem_digits hbyte,
        digits_ne_nil n.toNat⟩
  | negInt n =>
      have hneg : n < 0 := hn
      change (∀ byte ∈ writeI64 n, IsNumberByte byte) ∧ writeI64 n ≠ []
      rw [writeI64, if_pos hneg]
      refine ⟨?_, List.cons_ne_nil _ _⟩
      intro byte hbyte
      rcases List.mem_cons.mp hbyte with rfl | hdigit
      · decide
      · exact isNumberByte_of_mem_digits hdigit
  | float x =>
      have hfinite : x.isFinite = true := hn
      change (∀ byte ∈ writeF64 x, IsNumberByte byte) ∧ writeF64 x ≠ []
      rw [writeF64, if_pos hfinite]
      refine ⟨fun byte hbyte => hlawful.isNumberByte x byte hfinite hbyte, ?_⟩
      change (if x.bits = 0x3ff0000000000000 then utf8 "1.0"
        else digits x.bits.toNat ++ [0x65, 0x30]) ≠ []
      split
      next => decide +kernel
      next => simp

/-- A value does not start with a closing bracket. -/
theorem exists_write_eq_cons {value : Json} (hvalue : value.Representable) :
    letI := floatFormat
    ∃ first tail, value.write = first :: tail ∧ first ≠ 0x5d := by
  let _ := floatFormat
  cases value with
  | null => exact ⟨_, _, rfl, by decide⟩
  | bool b =>
      cases b with
      | false => exact ⟨_, _, rfl, by decide⟩
      | true => exact ⟨_, _, rfl, by decide⟩
  | number n =>
      obtain ⟨hbytes, hne⟩ := exists_write_number hvalue
      obtain ⟨first, tail, hwrite⟩ := List.exists_cons_of_ne_nil hne
      refine ⟨first, tail, hwrite, ?_⟩
      have hfirst : IsNumberByte first :=
        hbytes first (by rw [hwrite]; exact List.mem_cons_self)
      rintro rfl
      revert hfirst
      decide
  | string s => exact ⟨_, _, rfl, by decide⟩
  | array items => exact ⟨_, _, rfl, by decide⟩
  | object members => exact ⟨_, _, rfl, by decide⟩

theorem parseValue_number {fuel : ℕ} {n : JsonNumber} (hn : n.Representable)
    {rest : Bytes} (hrest : EndsNumber rest) :
    letI := floatFormat
    parseValue (fuel + 1) (n.write ++ rest) = some (.number n, rest) := by
  let _ := floatFormat
  obtain ⟨hbytes, hne⟩ := exists_write_number hn
  obtain ⟨hword, hafter⟩ := takeWhile_number hbytes hrest
  obtain ⟨first, tail, hwrite⟩ := List.exists_cons_of_ne_nil hne
  have hfirst : IsNumberByte first :=
    hbytes first (by rw [hwrite]; exact List.mem_cons_self)
  have hother : ∀ byte, ¬ IsNumberByte byte → first ≠ byte := by
    rintro byte hbyte rfl
    exact hbyte hfirst
  have hparse : parseValue (fuel + 1) (n.write ++ rest) =
      some (.number (readNumber
          ((n.write ++ rest).takeWhile (IsNumberByte ·))),
        (n.write ++ rest).dropWhile (IsNumberByte ·)) := by
    rw [hwrite, List.cons_append, parseValue]
    simp only [hother 0x22 (by decide), hother 0x5b (by decide),
      hother 0x7b (by decide), hother 0x6e (by decide),
      hother 0x74 (by decide), hother 0x66 (by decide), hfirst, if_false,
      if_true]
  rw [hparse, hword, hafter, readNumber_write hn]

/-- One item, and the ones behind a comma. -/
theorem parseItems_last {fuel : ℕ} {text rest : Bytes} {item : Json}
    (hitem : parseValue fuel text = some (item, 0x5d :: rest)) :
    parseItems (fuel + 1) text = some ([item], rest) := by
  rw [parseItems, hitem]
  rfl

theorem parseItems_next {fuel : ℕ} {text more rest : Bytes} {item : Json}
    {items : List Json}
    (hitem : parseValue fuel text = some (item, 0x2c :: more))
    (hitems : parseItems fuel more = some (items, rest)) :
    parseItems (fuel + 1) text = some (item :: items, rest) := by
  rw [parseItems, hitem]
  change (parseItems fuel more).map _ = _
  rw [hitems]
  rfl

/-- A written key is read, and what follows its value decides. -/
theorem parseMembers_writeString (fuel : ℕ) (key : String) (text : Bytes) :
    parseMembers (fuel + 1) (writeString key ++ 0x3a :: text) =
      (parseValue fuel text).bind fun (value, rest) =>
        if rest.head? = some 0x2c then
          (parseMembers fuel rest.tail).map fun (members, rest) =>
            ((key, value) :: members, rest)
        else if rest.head? = some 0x7d then some ([(key, value)], rest.tail)
        else none := by
  obtain ⟨tail, hkey, hparse⟩ := parseString_writeString key (0x3a :: text)
  rw [hkey, parseMembers]
  change (parseString tail).bind _ = _
  rw [hparse]
  rfl

theorem parseMembers_last {fuel : ℕ} {key : String} {text rest : Bytes}
    {value : Json}
    (hvalue : parseValue fuel text = some (value, 0x7d :: rest)) :
    parseMembers (fuel + 1) (writeString key ++ 0x3a :: text) =
      some ([(key, value)], rest) := by
  rw [parseMembers_writeString, hvalue]
  rfl

theorem parseMembers_next {fuel : ℕ} {key : String} {text more rest : Bytes}
    {value : Json} {members : List (String × Json)}
    (hvalue : parseValue fuel text = some (value, 0x2c :: more))
    (hmembers : parseMembers fuel more = some (members, rest)) :
    parseMembers (fuel + 1) (writeString key ++ 0x3a :: text) =
      some ((key, value) :: members, rest) := by
  rw [parseMembers_writeString, hvalue]
  change (parseMembers fuel more).map _ = _
  rw [hmembers]
  rfl

/-- A text in brackets whose items are read, with fuel for all of it. -/
theorem parseValue_array {fuel : ℕ} {inner rest : Bytes} {items : List Json}
    (hopen : ∃ first tail, inner = first :: tail ∧ first ≠ 0x5d)
    (hitems : ∀ fuel, inner.length ≤ fuel →
      parseItems (fuel + 2) (inner ++ 0x5d :: rest) = some (items, rest))
    (hfuel : (0x5b :: inner ++ [0x5d]).length ≤ fuel) :
    parseValue (fuel + 1) (0x5b :: inner ++ [0x5d] ++ rest) =
      some (.array items, rest) := by
  obtain ⟨first, tail, rfl, hfirst⟩ := hopen
  rw [List.length_append, List.length_cons, List.length_singleton] at hfuel
  obtain ⟨fuel, rfl⟩ : ∃ less, fuel = less + 2 := ⟨fuel - 2, by omega⟩
  have hread := hitems fuel (by omega)
  rw [List.append_assoc, List.cons_append, List.singleton_append, parseValue]
  change (if some first = some 0x5d then _
    else (parseItems (fuel + 2) _).map _) = _
  rw [if_neg (by simpa using hfirst), hread]
  rfl

/-- The same for members in braces. -/
theorem parseValue_object {fuel : ℕ} {inner rest : Bytes}
    {members : List (String × Json)}
    (hopen : ∃ first tail, inner = first :: tail ∧ first ≠ 0x7d)
    (hmembers : ∀ fuel, inner.length ≤ fuel →
      parseMembers (fuel + 2) (inner ++ 0x7d :: rest) = some (members, rest))
    (hfuel : (0x7b :: inner ++ [0x7d]).length ≤ fuel) :
    parseValue (fuel + 1) (0x7b :: inner ++ [0x7d] ++ rest) =
      some (.object members, rest) := by
  obtain ⟨first, tail, rfl, hfirst⟩ := hopen
  rw [List.length_append, List.length_cons, List.length_singleton] at hfuel
  obtain ⟨fuel, rfl⟩ : ∃ less, fuel = less + 2 := ⟨fuel - 2, by omega⟩
  have hread := hmembers fuel (by omega)
  rw [List.append_assoc, List.cons_append, List.singleton_append, parseValue]
  change (if some first = some 0x7d then _
    else (parseMembers (fuel + 2) _).map _) = _
  rw [if_neg (by simpa using hfirst), hread]
  rfl

/-- A text of several pieces starts with the first one. -/
theorem exists_intercalate_eq (piece : Bytes) (pieces : List Bytes) :
    ∃ tail, List.intercalate [0x2c] (piece :: pieces) = piece ++ tail := by
  cases pieces with
  | nil => exact ⟨[], by rw [List.intercalate_singleton, List.append_nil]⟩
  | cons next pieces =>
      rw [List.intercalate_cons_cons, List.append_assoc]
      exact ⟨_, rfl⟩

mutual

/-- A written value is read back from any text that goes on with something
else than a number. -/
theorem parseValue_write : (value : Json) → value.Representable →
    ∀ (fuel : ℕ) (rest : Bytes),
      letI := floatFormat
      value.write.length ≤ fuel → EndsNumber rest →
        parseValue (fuel + 1) (value.write ++ rest) = some (value, rest)
  | .null, _, _, _, _, _ => rfl
  | .bool true, _, _, _, _, _ => rfl
  | .bool false, _, _, _, _, _ => rfl
  | .number _, hn, _, _, _, hrest => parseValue_number hn hrest
  | .string s, _, _, rest, _, _ => by
      obtain ⟨text, hwrite, hparse⟩ := parseString_writeString s rest
      change parseValue _ (writeString s ++ rest) = _
      rw [hwrite, parseValue, if_pos rfl, hparse]
      rfl
  | .array [], _, _, _, _, _ => rfl
  | .array (item :: items), hitems, fuel, rest, hfuel, _ => by
      let _ := floatFormat
      obtain ⟨first, tail, hwrite, hfirst⟩ := exists_write_eq_cons hitems.1
      obtain ⟨later, hlater⟩ :=
        exists_intercalate_eq item.write (Json.writeItems items)
      have hopen : ∃ first tail, List.intercalate [0x2c]
          (item.write :: Json.writeItems items) = first :: tail ∧
            first ≠ 0x5d :=
        ⟨first, tail ++ later, by rw [hlater, hwrite]; rfl, hfirst⟩
      exact parseValue_array hopen
        (fun fuel => parseItems_write (item :: items) hitems
          (List.cons_ne_nil _ _) fuel rest) hfuel
  | .object [], _, _, _, _, _ => rfl
  | .object ((key, value) :: members), hmembers, fuel, rest, hfuel, _ => by
      let _ := floatFormat
      obtain ⟨later, hlater⟩ := exists_intercalate_eq
        (writeMember (key, value.write))
        ((Json.writeMembers members).map writeMember)
      have hopen : ∃ first tail, List.intercalate [0x2c]
          (writeMember (key, value.write) ::
            (Json.writeMembers members).map writeMember) = first :: tail ∧
              first ≠ 0x7d :=
        ⟨0x22, _, hlater, by decide⟩
      exact parseValue_object hopen
        (fun fuel => parseMembers_write ((key, value) :: members) hmembers
          (List.cons_ne_nil _ _) fuel rest) hfuel

/-- The items of an array, up to its closing bracket. -/
theorem parseItems_write : (items : List Json) →
    Json.RepresentableItems items → items ≠ [] →
    ∀ (fuel : ℕ) (rest : Bytes),
      letI := floatFormat
      (List.intercalate [0x2c] (Json.writeItems items)).length ≤ fuel →
        parseItems (fuel + 2) (List.intercalate [0x2c]
            (Json.writeItems items) ++ 0x5d :: rest) = some (items, rest)
  | [], _, hne, _, _, _ => absurd rfl hne
  | [item], hitems, _, fuel, rest, hfuel => by
      change (List.intercalate [0x2c] [_]).length ≤ fuel at hfuel
      change parseItems _ (List.intercalate [0x2c] [_] ++ 0x5d :: rest) = _
      rw [List.intercalate_singleton] at hfuel ⊢
      exact parseItems_last (parseValue_write item hitems.1 fuel _ hfuel
        (endsNumber_cons (by decide) rest))
  | item :: next :: items, hitems, _, fuel, rest, hfuel => by
      let _ := floatFormat
      change (List.intercalate [0x2c] (item.write :: next.write ::
        Json.writeItems items)).length ≤ fuel at hfuel
      change parseItems _ (List.intercalate [0x2c] (item.write :: next.write ::
        Json.writeItems items) ++ 0x5d :: rest) = _
      rw [List.intercalate_cons_cons] at hfuel ⊢
      rw [List.length_append, List.length_append, List.length_singleton]
        at hfuel
      obtain ⟨fuel, rfl⟩ : ∃ less, fuel = less + 1 := ⟨fuel - 1, by omega⟩
      have hlater := parseItems_write (next :: items) hitems.2
        (List.cons_ne_nil _ _) fuel rest (by
        change (List.intercalate [0x2c] (next.write ::
          Json.writeItems items)).length ≤ fuel
        omega)
      rw [List.append_assoc, List.append_assoc]
      exact parseItems_next (parseValue_write item hitems.1 (fuel + 1) _
        (by omega) (endsNumber_cons (by decide) _)) hlater

/-- The members of an object, up to its closing brace. -/
theorem parseMembers_write : (members : List (String × Json)) →
    Json.RepresentableMembers members → members ≠ [] →
    ∀ (fuel : ℕ) (rest : Bytes),
      letI := floatFormat
      (List.intercalate [0x2c]
          ((Json.writeMembers members).map writeMember)).length ≤ fuel →
        parseMembers (fuel + 2) (List.intercalate [0x2c]
            ((Json.writeMembers members).map writeMember) ++ 0x7d :: rest) =
          some (members, rest)
  | [], _, hne, _, _, _ => absurd rfl hne
  | [(key, value)], hmembers, _, fuel, rest, hfuel => by
      let _ := floatFormat
      change (List.intercalate [0x2c] [writeString key ++ 0x3a ::
        value.write]).length ≤ fuel at hfuel
      change parseMembers _ (List.intercalate [0x2c] [writeString key ++
        0x3a :: value.write] ++ 0x7d :: rest) = _
      rw [List.intercalate_singleton] at hfuel ⊢
      rw [List.length_append, List.length_cons] at hfuel
      rw [List.append_assoc]
      exact parseMembers_last (parseValue_write value hmembers.1 fuel _
        (by omega) (endsNumber_cons (by decide) rest))
  | (key, value) :: (key', value') :: members, hmembers, _, fuel, rest,
    hfuel => by
      let _ := floatFormat
      change (List.intercalate [0x2c] ((writeString key ++ 0x3a ::
        value.write) :: writeMember (key', value'.write) ::
          (Json.writeMembers members).map writeMember)).length ≤ fuel at hfuel
      change parseMembers _ (List.intercalate [0x2c] ((writeString key ++
        0x3a :: value.write) :: writeMember (key', value'.write) ::
          (Json.writeMembers members).map writeMember) ++ 0x7d :: rest) = _
      rw [List.intercalate_cons_cons] at hfuel ⊢
      rw [List.length_append, List.length_append, List.length_append,
        List.length_cons, List.length_singleton] at hfuel
      obtain ⟨fuel, rfl⟩ : ∃ less, fuel = less + 1 := ⟨fuel - 1, by omega⟩
      have hlater := parseMembers_write ((key', value') :: members)
        hmembers.2 (List.cons_ne_nil _ _) fuel rest (by
          change (List.intercalate [0x2c] (writeMember (key', value'.write) ::
            (Json.writeMembers members).map writeMember)).length ≤ fuel
          omega)
      rw [List.append_assoc, List.append_assoc, List.append_assoc]
      exact parseMembers_next (parseValue_write value hmembers.1 (fuel + 1) _
        (by omega) (endsNumber_cons (by decide) _)) hlater

end

/-- A value that is a whole text. -/
def parse (text : Bytes) : Option Json :=
  match parseValue (text.length + 1) text with
  | some (value, []) => some value
  | _ => none

theorem parse_write {value : Json} (hvalue : value.Representable) :
    letI := floatFormat
    parse value.write = some value := by
  let _ := floatFormat
  have hparse := parseValue_write value hvalue value.write.length []
    le_rfl (fun _ hbyte => absurd hbyte (by simp))
  rw [List.append_nil] at hparse
  rw [parse, hparse]

@[reducible]
def serdeJsonText : SerdeJsonText where
  syntaxTree text := parse (utf8 text)
  receiptError _ := "syntax error"

@[reducible]
def serdeJson : SerdeJson where
  fromStr text :=
    match parse (utf8 text) with
    | some value =>
        if value.depth < 128 then .ok value.normalize
        else .error "recursion limit exceeded"
    | none => .error "syntax error"
  transactionError _ := "invalid transaction"

theorem lawfulSerdeJson :
    @LawfulSerdeJson floatFormat serdeJson serdeJsonText := by
  let _ := floatFormat
  let _ := serdeJson
  let _ := serdeJsonText
  have _ := lawfulFloatFormat
  constructor
  · intro text value hvalue htext
    change parse (utf8 text) = some value
    rw [htext, parse_write hvalue]
  · intro text value hvalue hdepth htext
    change (match parse (utf8 text) with
      | some value =>
          if value.depth < 128 then Except.ok value.normalize
          else Except.error "recursion limit exceeded"
      | none => Except.error "syntax error") = _
    rw [htext, parse_write hvalue]
    exact if_pos hdepth

end JsonReference

end CraftSec
