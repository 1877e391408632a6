/-
UTF-8 decoding one byte at a time: strictly, with the position of the first
error, and lossily, where every maximal part of a character that cannot be
completed becomes one replacement character.
-/
import Mathlib.Data.List.Basic

namespace Utf8

/-- A character begun: the continuation bytes it still needs, the range of the
next one, and the bits read so far. -/
structure Begun where
  owed : ℕ
  low : ℕ
  high : ℕ
  bits : ℕ
deriving Repr, DecidableEq

/-- What a byte does. -/
inductive Step where
  | char (c : Char)
  | more (begun : Begun)
  | refused
deriving DecidableEq

/-- The byte that starts a character.  Overlong forms, surrogates and values
above the last code point are excluded by the range of the second byte. -/
def lead (byte : ℕ) : Step :=
  if byte ≤ 0x7f then .char (Char.ofNat byte)
  else if 0xc2 ≤ byte ∧ byte ≤ 0xdf then .more ⟨1, 0x80, 0xbf, byte - 0xc0⟩
  else if byte = 0xe0 then .more ⟨2, 0xa0, 0xbf, 0⟩
  else if byte = 0xed then .more ⟨2, 0x80, 0x9f, 0xd⟩
  else if 0xe1 ≤ byte ∧ byte ≤ 0xef then .more ⟨2, 0x80, 0xbf, byte - 0xe0⟩
  else if byte = 0xf0 then .more ⟨3, 0x90, 0xbf, 0⟩
  else if 0xf1 ≤ byte ∧ byte ≤ 0xf3 then .more ⟨3, 0x80, 0xbf, byte - 0xf0⟩
  else if byte = 0xf4 then .more ⟨3, 0x80, 0x8f, 4⟩
  else .refused

/-- A byte within a character. -/
def Begun.next (begun : Begun) (byte : ℕ) : Step :=
  if begun.low ≤ byte ∧ byte ≤ begun.high then
    if begun.owed ≤ 1 then .char (Char.ofNat (begun.bits * 64 + (byte - 0x80)))
    else .more ⟨begun.owed - 1, 0x80, 0xbf, begun.bits * 64 + (byte - 0x80)⟩
  else .refused

def step : Option Begun → ℕ → Step
  | none, byte => lead byte
  | some begun, byte => begun.next byte

def replacement : Char := Char.ofNat 0xfffd

/-- The lossy decoder between characters, or within one.  A byte that cannot
continue a character is read again as the start of the next. -/
def decodeLossy : Option Begun → List UInt8 → List Char
  | none, [] => []
  | some _, [] => [replacement]
  | none, byte :: rest =>
      match step none byte.toNat with
      | .char c => c :: decodeLossy none rest
      | .more begun => decodeLossy (some begun) rest
      | .refused => replacement :: decodeLossy none rest
  | some begun, byte :: rest =>
      match step (some begun) byte.toNat with
      | .char c => c :: decodeLossy none rest
      | .more begun => decodeLossy (some begun) rest
      | .refused =>
          replacement ::
            match step none byte.toNat with
            | .char c => c :: decodeLossy none rest
            | .more begun => decodeLossy (some begun) rest
            | .refused => replacement :: decodeLossy none rest

/-- Where decoding stops: the start of the first bad character, and the number
of its bytes if the input does not merely end within it. -/
structure Error where
  validUpTo : ℕ
  errorLen : Option ℕ
deriving Repr, DecidableEq

/-- The strict decoder; `start` is the index of the character being read and
`seen` counts its bytes. -/
def decodeStrict : Option Begun → (start seen : ℕ) → List UInt8 →
    Except Error (List Char)
  | none, _, _, [] => .ok []
  | some _, start, _, [] => .error ⟨start, none⟩
  | state, start, seen, byte :: rest =>
      match step state byte.toNat with
      | .char c =>
          (decodeStrict none (start + seen + 1) 0 rest).map fun cs => c :: cs
      | .more begun => decodeStrict (some begun) start (seen + 1) rest
      | .refused => .error ⟨start, some (max 1 seen)⟩

/-- The bytes complete the character and end with it. -/
def Spells (c : Char) : Option Begun → List UInt8 → Prop
  | _, [] => False
  | state, byte :: rest =>
      (step state byte.toNat = .char c ∧ rest = []) ∨
        ∃ begun, step state byte.toNat = .more begun ∧
          Spells c (some begun) rest

theorem decodeLossy_append {c : Char} (rest : List UInt8) :
    ∀ {state : Option Begun} {bytes : List UInt8}, Spells c state bytes →
      decodeLossy state (bytes ++ rest) = c :: decodeLossy none rest := by
  intro state bytes hspells
  induction bytes generalizing state with
  | nil => exact hspells.elim
  | cons byte bytes ih =>
      rcases hspells with ⟨hchar, rfl⟩ | ⟨begun, hmore, hspells⟩
      · cases state with
        | none => simp only [List.cons_append, decodeLossy, hchar, List.nil_append]
        | some begun =>
            simp only [List.cons_append, decodeLossy, hchar, List.nil_append]
      · cases state with
        | none => simp only [List.cons_append, decodeLossy, hmore, ih hspells]
        | some begun =>
            simp only [List.cons_append, decodeLossy, hmore, ih hspells]

theorem decodeStrict_append {c : Char} (rest : List UInt8) :
    ∀ {state : Option Begun} {bytes : List UInt8} (start seen : ℕ),
      Spells c state bytes →
      decodeStrict state start seen (bytes ++ rest) =
        (decodeStrict none (start + seen + bytes.length) 0 rest).map
          fun cs => c :: cs := by
  intro state bytes start seen hspells
  induction bytes generalizing state seen with
  | nil => exact hspells.elim
  | cons byte bytes ih =>
      rcases hspells with ⟨hchar, rfl⟩ | ⟨begun, hmore, hspells⟩
      · simp only [List.cons_append, decodeStrict, hchar, List.nil_append,
          List.length_singleton]
      · simp only [List.cons_append, decodeStrict, hmore, ih _ hspells,
          List.length_cons]
        rw [show start + (seen + 1) + bytes.length =
          start + seen + (bytes.length + 1) by omega]

/-- A continuation byte of the encoder is in the widest range. -/
theorem tail_bounds (v : ℕ) : 0x80 ≤ v % 64 + 0x80 ∧ v % 64 + 0x80 ≤ 0xbf := by
  omega

theorem Begun.next_more {owed low high bits v : ℕ} (hlow : low ≤ v % 64 + 0x80)
    (hhigh : v % 64 + 0x80 ≤ high) :
    Begun.next ⟨owed + 2, low, high, bits⟩ (v % 64 + 0x80) =
      .more ⟨owed + 1, 0x80, 0xbf, bits * 64 + v % 64⟩ := by
  rw [Begun.next, if_pos ⟨hlow, hhigh⟩]
  simp

theorem Begun.next_char (bits v : ℕ) :
    Begun.next ⟨1, 0x80, 0xbf, bits⟩ (v % 64 + 0x80) =
      .char (Char.ofNat (bits * 64 + v % 64)) := by
  rw [Begun.next, if_pos (tail_bounds v)]
  simp

theorem lead_of_three {v : ℕ} (hlow : 0x7ff < v) (hhigh : v ≤ 0xffff)
    (hvalid : v < 0xd800 ∨ 0xdfff < v) :
    ∃ low high, lead (v / 4096 % 16 + 0xe0) = .more ⟨2, low, high, v / 4096⟩ ∧
      low ≤ v / 64 % 64 + 0x80 ∧ v / 64 % 64 + 0x80 ≤ high := by
  have hone : ¬ v / 4096 % 16 + 0xe0 ≤ 0x7f := by omega
  have htwo : ¬ (0xc2 ≤ v / 4096 % 16 + 0xe0 ∧ v / 4096 % 16 + 0xe0 ≤ 0xdf) := by
    omega
  rw [lead, if_neg hone, if_neg htwo]
  by_cases hfirst : v / 4096 % 16 + 0xe0 = 0xe0
  · refine ⟨0xa0, 0xbf, ?_, by omega, by omega⟩
    rw [if_pos hfirst, show v / 4096 = 0 by omega]
  · rw [if_neg hfirst]
    by_cases hsurrogate : v / 4096 % 16 + 0xe0 = 0xed
    · refine ⟨0x80, 0x9f, ?_, by omega, by omega⟩
      rw [if_pos hsurrogate, show v / 4096 = 0xd by omega]
    · refine ⟨0x80, 0xbf, ?_, (tail_bounds _).1, (tail_bounds _).2⟩
      rw [if_neg hsurrogate, if_pos (by omega),
        show v / 4096 % 16 + 0xe0 - 0xe0 = v / 4096 by omega]

theorem lead_of_four {v : ℕ} (hlow : 0xffff < v) (hhigh : v < 0x110000) :
    ∃ low high, lead (v / 262144 % 8 + 0xf0) = .more ⟨3, low, high, v / 262144⟩ ∧
      low ≤ v / 4096 % 64 + 0x80 ∧ v / 4096 % 64 + 0x80 ≤ high := by
  have hone : ¬ v / 262144 % 8 + 0xf0 ≤ 0x7f := by omega
  have htwo : ¬ (0xc2 ≤ v / 262144 % 8 + 0xf0 ∧ v / 262144 % 8 + 0xf0 ≤ 0xdf) := by
    omega
  rw [lead, if_neg hone, if_neg htwo, if_neg (by omega), if_neg (by omega),
    if_neg (by omega)]
  by_cases hfirst : v / 262144 % 8 + 0xf0 = 0xf0
  · refine ⟨0x90, 0xbf, ?_, by omega, by omega⟩
    rw [if_pos hfirst, show v / 262144 = 0 by omega]
  · rw [if_neg hfirst]
    by_cases hlast : v / 262144 % 8 + 0xf0 ≤ 0xf3
    · refine ⟨0x80, 0xbf, ?_, (tail_bounds _).1, (tail_bounds _).2⟩
      rw [if_pos ⟨by omega, hlast⟩,
        show v / 262144 % 8 + 0xf0 - 0xf0 = v / 262144 by omega]
    · refine ⟨0x80, 0x8f, ?_, by omega, by omega⟩
      rw [if_neg (fun h => hlast h.2), if_pos (by omega),
        show v / 262144 = 4 by omega]

/-- The encoder's bytes spell the character. -/
theorem spells_utf8EncodeChar (c : Char) :
    Spells c none (String.utf8EncodeChar c) := by
  have hvalid : c.val.toNat < 0xd800 ∨
      0xdfff < c.val.toNat ∧ c.val.toNat < 0x110000 := c.valid
  have hofNat : Char.ofNat c.val.toNat = c := Char.ofNat_toNat c
  generalize hv : c.val.toNat = v at hvalid hofNat
  have hbyte {n : ℕ} (hn : n < 256) : (UInt8.ofNat n).toNat = n :=
    UInt8.toNat_ofNat_of_lt hn
  have hchar : Char.ofNat (v / 64 * 64 + v % 64) = c := by
    rw [Nat.div_add_mod', hofNat]
  have hsix : v / 4096 * 64 + v / 64 % 64 = v / 64 := by omega
  have htwelve : v / 262144 * 64 + v / 4096 % 64 = v / 4096 := by omega
  simp only [String.utf8EncodeChar, hv]
  split_ifs with hone htwo hthree
  · refine Or.inl ⟨?_, rfl⟩
    rw [hbyte (by omega), step, lead, if_pos hone, hofNat]
  · refine Or.inr ⟨⟨1, 0x80, 0xbf, v / 64⟩, ?_, Or.inl ⟨?_, rfl⟩⟩
    · rw [hbyte (by omega), step, lead, if_neg (by omega), if_pos (by omega),
        show v / 64 % 32 + 0xc0 - 0xc0 = v / 64 by omega]
    · rw [hbyte (by omega), step, Begun.next_char, hchar]
  · obtain ⟨low, high, hlead, hlow, hhigh⟩ := lead_of_three (by omega) hthree
      (hvalid.imp_right And.left)
    refine Or.inr ⟨_, by rw [hbyte (by omega)]; exact hlead, Or.inr
      ⟨⟨1, 0x80, 0xbf, v / 64⟩, ?_, Or.inl ⟨?_, rfl⟩⟩⟩
    · rw [hbyte (by omega), step, Begun.next_more hlow hhigh, hsix]
    · rw [hbyte (by omega), step, Begun.next_char, hchar]
  · obtain ⟨low, high, hlead, hlow, hhigh⟩ :=
      lead_of_four (v := v) (by omega) (by omega)
    refine Or.inr ⟨_, by rw [hbyte (by omega)]; exact hlead, Or.inr
      ⟨⟨2, 0x80, 0xbf, v / 4096⟩, ?_, Or.inr
        ⟨⟨1, 0x80, 0xbf, v / 64⟩, ?_, Or.inl ⟨?_, rfl⟩⟩⟩⟩
    · rw [hbyte (by omega), step, Begun.next_more hlow hhigh, htwelve]
    · rw [hbyte (by omega), step, Begun.next_more (tail_bounds _).1
        (tail_bounds _).2, hsix]
    · rw [hbyte (by omega), step, Begun.next_char, hchar]

/-- The byte 0xff occurs in no character. -/
theorem ne_ff_of_mem_utf8EncodeChar {c : Char} {byte : UInt8}
    (hbyte : byte ∈ String.utf8EncodeChar c) : byte ≠ 0xff := by
  have hsmall {n : ℕ} (hn : n < 255) : UInt8.ofNat n ≠ 0xff := by
    intro heq
    have hnat := congrArg UInt8.toNat heq
    rw [UInt8.toNat_ofNat', Nat.mod_eq_of_lt (by omega)] at hnat
    change n = 255 at hnat
    omega
  simp only [String.utf8EncodeChar] at hbyte
  split_ifs at hbyte with hone htwo hthree
  · rw [List.mem_singleton.mp hbyte]
    exact hsmall (by omega)
  · rcases List.mem_pair.mp hbyte with rfl | rfl
    · exact hsmall (by omega)
    · exact hsmall (by omega)
  · simp only [List.mem_cons, List.not_mem_nil, or_false] at hbyte
    rcases hbyte with rfl | rfl | rfl
    · exact hsmall (by omega)
    · exact hsmall (by omega)
    · exact hsmall (by omega)
  · simp only [List.mem_cons, List.not_mem_nil, or_false] at hbyte
    rcases hbyte with rfl | rfl | rfl | rfl
    · exact hsmall (by omega)
    · exact hsmall (by omega)
    · exact hsmall (by omega)
    · exact hsmall (by omega)

/-- A character above the ASCII range has no byte in it. -/
theorem le_of_mem_utf8EncodeChar {c : Char} (hwide : 0x7f < c.val.toNat)
    {byte : UInt8} (hbyte : byte ∈ String.utf8EncodeChar c) : 0x80 ≤ byte := by
  have hlarge {n : ℕ} (hlow : 0x80 ≤ n) (hhigh : n < 256) :
      0x80 ≤ UInt8.ofNat n := by
    rw [UInt8.le_iff_toNat_le, UInt8.toNat_ofNat', Nat.mod_eq_of_lt hhigh]
    exact hlow
  simp only [String.utf8EncodeChar] at hbyte
  split_ifs at hbyte with hone htwo hthree
  · exact absurd hone (Nat.not_le_of_lt hwide)
  · rcases List.mem_pair.mp hbyte with rfl | rfl
    · exact hlarge (by omega) (by omega)
    · exact hlarge (by omega) (by omega)
  · simp only [List.mem_cons, List.not_mem_nil, or_false] at hbyte
    rcases hbyte with rfl | rfl | rfl
    · exact hlarge (by omega) (by omega)
    · exact hlarge (by omega) (by omega)
    · exact hlarge (by omega) (by omega)
  · simp only [List.mem_cons, List.not_mem_nil, or_false] at hbyte
    rcases hbyte with rfl | rfl | rfl | rfl
    · exact hlarge (by omega) (by omega)
    · exact hlarge (by omega) (by omega)
    · exact hlarge (by omega) (by omega)
    · exact hlarge (by omega) (by omega)

/-- What was encoded is decoded without loss. -/
theorem decodeLossy_utf8Encode (cs : List Char) :
    decodeLossy none (cs.flatMap String.utf8EncodeChar) = cs := by
  induction cs with
  | nil => rfl
  | cons c cs ih =>
      rw [List.flatMap_cons, decodeLossy_append _ (spells_utf8EncodeChar c), ih]

theorem decodeStrict_utf8Encode (cs : List Char) (start : ℕ) :
    decodeStrict none start 0 (cs.flatMap String.utf8EncodeChar) = .ok cs := by
  induction cs generalizing start with
  | nil => rfl
  | cons c cs ih =>
      rw [List.flatMap_cons, decodeStrict_append _ _ _ (spells_utf8EncodeChar c),
        ih]
      rfl

end Utf8
