/-
What can be read back from the texts that serde_json writes: strings are a
prefix code, numbers end where a comma or a brace begins, and an object with
known keys determines its values.
-/
import CraftSec.Core.Receipt
import CraftSec.Lib.PrefixCode

namespace CraftSec

open PrefixCode (IsPrefixCode)

theorem utf8_injective : Function.Injective utf8 := by
  intro s s' heq
  rw [← fromUtf8Lossy_utf8 s, heq, fromUtf8Lossy_utf8]

theorem utf8_append (s s' : String) : utf8 (s ++ s') = utf8 s ++ utf8 s' := by
  rw [utf8, utf8, utf8, String.toList_append, List.flatMap_append]

/-- A byte that strings never contain. -/
theorem ff_not_mem_utf8 (s : String) : 0xff ∉ utf8 s := by
  intro hmem
  obtain ⟨c, -, hbyte⟩ := List.mem_flatMap.mp hmem
  exact Utf8.ne_ff_of_mem_utf8EncodeChar hbyte rfl

section Escapes

/-- The length of the escaped byte that a text begins with. -/
def escapedLength : Bytes → ℕ
  | first :: second :: _ =>
      if first = 0x5c then if second = 0x75 then 6 else 2 else 1
  | _ => 1

/-- A byte is written as itself, or as a backslash and a letter that tells how
much follows. -/
theorem escapeByte_cases (byte : UInt8) :
    (escapeByte byte = [byte] ∧ byte ≠ 0x22 ∧ byte ≠ 0x5c) ∨
      ∃ second tail, escapeByte byte = 0x5c :: second :: tail ∧
        tail.length = if second = 0x75 then 4 else 0 := by
  unfold escapeByte
  split_ifs with h8 h9 ha hc hd hquote hbackslash hcontrol
  · exact .inr ⟨_, _, rfl, rfl⟩
  · exact .inr ⟨_, _, rfl, rfl⟩
  · exact .inr ⟨_, _, rfl, rfl⟩
  · exact .inr ⟨_, _, rfl, rfl⟩
  · exact .inr ⟨_, _, rfl, rfl⟩
  · exact .inr ⟨_, _, rfl, rfl⟩
  · exact .inr ⟨_, _, rfl, rfl⟩
  · exact .inr ⟨_, _, rfl, rfl⟩
  · exact .inl ⟨rfl, hquote, hbackslash⟩

theorem escapedLength_append (byte : UInt8) (rest : Bytes) :
    escapedLength (escapeByte byte ++ rest) = (escapeByte byte).length := by
  obtain ⟨hplain, -, hbackslash⟩ | ⟨second, tail, hescape, htail⟩ :=
    escapeByte_cases byte
  · rw [hplain]
    cases rest with
    | nil => rfl
    | cons next rest => exact if_neg hbackslash
  · rw [hescape, List.length_cons, List.length_cons, htail,
      List.cons_append, List.cons_append, escapedLength, if_pos rfl]
    split
    next => rfl
    next => rfl

/-- The byte behind an escape. -/
def unescapeByte : Bytes → UInt8
  | [byte] => byte
  | [_, short] =>
      if short = 0x62 then 0x08
      else if short = 0x74 then 0x09
      else if short = 0x6e then 0x0a
      else if short = 0x66 then 0x0c
      else if short = 0x72 then 0x0d
      else short
  | [_, _, _, _, high, low] =>
      16 * (high - 0x30) + if low < 0x3a then low - 0x30 else low - 0x57
  | _ => 0

theorem unescapeByte_escapeByte (byte : UInt8) :
    unescapeByte (escapeByte byte) = byte := by
  have hall : ∀ n < 256,
      unescapeByte (escapeByte (UInt8.ofNat n)) = UInt8.ofNat n := by
    decide +kernel
  have hbyte := hall byte.toNat byte.toNat_lt
  rwa [UInt8.ofNat_toNat] at hbyte

theorem isPrefixCode_escapeByte : IsPrefixCode escapeByte := by
  apply IsPrefixCode.of_length escapedLength escapedLength_append
  intro byte byte' heq
  rw [← unescapeByte_escapeByte byte, heq, unescapeByte_escapeByte]

/-- No escape begins with the quote that closes a string. -/
theorem exists_escapeByte_eq_cons (byte : UInt8) :
    ∃ first tail, escapeByte byte = first :: tail ∧ first ≠ 0x22 := by
  obtain ⟨hplain, hquote, -⟩ | ⟨second, tail, hescape, -⟩ :=
    escapeByte_cases byte
  · exact ⟨byte, [], hplain, hquote⟩
  · exact ⟨0x5c, second :: tail, hescape, by decide⟩

theorem isPrefixCode_writeString : IsPrefixCode writeString := by
  have hquoted := (isPrefixCode_escapeByte.flatMap_of_stop
    exists_escapeByte_eq_cons).comp utf8_injective
  intro s s' rest rest' heq
  rw [writeString, writeString, List.cons_append, List.cons_append,
    List.cons_append, List.cons_append] at heq
  exact hquoted s s' rest rest' (List.cons.inj heq).2

end Escapes

section Objects

/-- The bytes that can follow a member's value: a comma or a closing brace. -/
def EndsValue (byte : UInt8) : Prop :=
  byte = 0x2c ∨ byte = 0x7d

/-- Two values, written before a comma or a brace, are told apart there. -/
def Delimited (value value' : Bytes) : Prop :=
  ∀ stop stop' rest rest', EndsValue stop → EndsValue stop' →
    value ++ stop :: rest = value' ++ stop' :: rest' →
    value = value' ∧ stop = stop' ∧ rest = rest'

theorem delimited_writeString (s s' : String) :
    Delimited (writeString s) (writeString s') := by
  intro stop stop' rest rest' _ _ heq
  obtain ⟨hsame, htail⟩ := isPrefixCode_writeString s s' _ _ heq
  obtain ⟨hstop, hrest⟩ := List.cons.inj htail
  exact ⟨by rw [hsame], hstop, hrest⟩

theorem delimited_of_forall {value value' : Bytes}
    (hvalue : ∀ byte ∈ value, ¬ EndsValue byte)
    (hvalue' : ∀ byte ∈ value', ¬ EndsValue byte) :
    Delimited value value' := by
  intro stop stop' rest rest' hstop hstop' heq
  exact PrefixCode.eq_of_append_stop hvalue hvalue' hstop hstop' heq

/-- The members of an object behind its opening brace, and the closing one. -/
def objectTail : List (String × Bytes) → Bytes
  | [] => []
  | [member] => writeMember member ++ [0x7d]
  | member :: next :: rest =>
      writeMember member ++ 0x2c :: objectTail (next :: rest)

theorem writeObject_eq_cons_objectTail (member : String × Bytes)
    (rest : List (String × Bytes)) :
    writeObject (member :: rest) = 0x7b :: objectTail (member :: rest) := by
  rw [writeObject, List.cons_append]
  congr 1
  induction rest generalizing member with
  | nil => rw [objectTail, List.map_singleton, List.intercalate_singleton]
  | cons next rest ih =>
      rw [objectTail, ← ih next, List.map_cons, List.map_cons,
        List.intercalate_cons_cons]
      simp

/-- Objects with the same keys, whose values are told apart by what follows
them, are told apart. -/
theorem objectTail_injective {members members' : List (String × Bytes)}
    (hmembers : List.Forall₂
      (fun member member' => member.1 = member'.1 ∧
        Delimited member.2 member'.2) members members')
    (heq : objectTail members = objectTail members') : members = members' := by
  induction hmembers with
  | nil => rfl
  | @cons member member' rest rest' hmember hrest ih =>
      obtain ⟨key, value⟩ := member
      obtain ⟨key', value'⟩ := member'
      obtain ⟨hkey, hvalue⟩ := hmember
      simp only at hkey hvalue
      subst hkey
      -- after the key stand the value, what ends it, and the other members
      have hfront : ∀ stop stop' text text', EndsValue stop →
          EndsValue stop' →
          writeMember (key, value) ++ stop :: text =
            writeMember (key, value') ++ stop' :: text' →
          value = value' ∧ text = text' := by
        intro stop stop' text text' hstop hstop' htext
        rw [writeMember, writeMember, List.append_assoc, List.append_assoc,
          List.append_cancel_left_eq, List.cons_append, List.cons_append] at htext
        obtain ⟨hsame, -, htail⟩ := hvalue stop stop' text text' hstop hstop'
          (List.cons.inj htext).2
        exact ⟨hsame, htail⟩
      cases hrest with
      | nil =>
          obtain ⟨hsame, -⟩ := hfront _ _ _ _ (Or.inr rfl) (Or.inr rfl) heq
          rw [hsame]
      | cons hnext hrest =>
          obtain ⟨hsame, htail⟩ :=
            hfront _ _ _ _ (Or.inl rfl) (Or.inl rfl) heq
          rw [hsame, ih htail]

/-- The values of an object are determined by its text. -/
theorem writeObject_injective {members members' : List (String × Bytes)}
    (hmembers : List.Forall₂
      (fun member member' => member.1 = member'.1 ∧
        Delimited member.2 member'.2) members members')
    (heq : writeObject members = writeObject members') :
    members = members' := by
  cases hmembers with
  | nil => rfl
  | cons hmember hrest =>
      rw [writeObject_eq_cons_objectTail, writeObject_eq_cons_objectTail] at heq
      exact objectTail_injective (List.Forall₂.cons hmember hrest)
        (List.cons.inj heq).2

end Objects

section Numbers

/-- A byte that can occur in a number. -/
def IsNumberByte (byte : UInt8) : Prop :=
  0x30 ≤ byte ∧ byte ≤ 0x39 ∨ byte = 0x2b ∨ byte = 0x2d ∨ byte = 0x2e ∨
    byte = 0x45 ∨ byte = 0x65

instance (byte : UInt8) : Decidable (IsNumberByte byte) :=
  inferInstanceAs (Decidable (_ ∨ _))

theorem not_endsValue_of_isNumberByte {byte : UInt8}
    (hbyte : IsNumberByte byte) : ¬ EndsValue byte := by
  rintro (rfl | rfl)
  · revert hbyte
    decide
  · revert hbyte
    decide

theorem toNat_bounds_of_mem_toDigits {n : ℕ} {digit : Char}
    (hdigit : digit ∈ Nat.toDigits 10 n) :
    0x30 ≤ digit.toNat ∧ digit.toNat ≤ 0x39 := by
  have hisDigit : digit.isDigit = true :=
    Nat.isDigit_of_mem_toDigits (by decide) (by decide) hdigit
  rw [Char.isDigit, Bool.and_eq_true, decide_eq_true_eq,
    decide_eq_true_eq] at hisDigit
  exact ⟨UInt32.le_iff_toNat_le.mp hisDigit.1,
    UInt32.le_iff_toNat_le.mp hisDigit.2⟩

theorem toNat_digit_byte {n : ℕ} {digit : Char}
    (hdigit : digit ∈ Nat.toDigits 10 n) :
    (UInt8.ofNat digit.toNat).toNat = digit.toNat := by
  obtain ⟨-, hhigh⟩ := toNat_bounds_of_mem_toDigits hdigit
  have hbyte : digit.toNat < 256 := by omega
  exact UInt8.toNat_ofNat_of_lt hbyte

/-- The bytes of digits, read as characters again. -/
theorem map_ofNat_digits (n : ℕ) :
    ((Nat.toDigits 10 n).map fun digit => UInt8.ofNat digit.toNat).map
      (fun byte => Char.ofNat byte.toNat) = Nat.toDigits 10 n := by
  rw [List.map_map]
  conv_rhs => rw [← List.map_id (Nat.toDigits 10 n)]
  apply List.map_congr_left
  intro digit hdigit
  rw [Function.comp_apply, toNat_digit_byte hdigit, Char.ofNat_toNat, id]

theorem toDigits_bytes_injective : Function.Injective fun n : ℕ =>
    (Nat.toDigits 10 n).map fun digit => UInt8.ofNat digit.toNat := by
  intro n n' heq
  have hdigits := congrArg
    (List.map fun byte : UInt8 => Char.ofNat byte.toNat) heq
  simp only [map_ofNat_digits] at hdigits
  rw [← Nat.ofDigitChars_ten_toDigits (n := n), hdigits,
    Nat.ofDigitChars_ten_toDigits]

theorem isNumberByte_of_mem_digits {n : ℕ} {byte : UInt8}
    (hbyte : byte ∈ (Nat.toDigits 10 n).map fun digit =>
      UInt8.ofNat digit.toNat) : IsNumberByte byte := by
  obtain ⟨digit, hdigit, rfl⟩ := List.mem_map.mp hbyte
  left
  rw [UInt8.le_iff_toNat_le, UInt8.le_iff_toNat_le, toNat_digit_byte hdigit]
  exact toNat_bounds_of_mem_toDigits hdigit

theorem writeU64_injective : Function.Injective writeU64 := by
  intro n n' heq
  exact UInt64.toNat_inj.mp (toDigits_bytes_injective heq)

theorem delimited_writeU64 (n n' : UInt64) :
    Delimited (writeU64 n) (writeU64 n') :=
  delimited_of_forall
    (fun _ hbyte => not_endsValue_of_isNumberByte
      (isNumberByte_of_mem_digits hbyte))
    (fun _ hbyte => not_endsValue_of_isNumberByte
      (isNumberByte_of_mem_digits hbyte))

end Numbers

end CraftSec
