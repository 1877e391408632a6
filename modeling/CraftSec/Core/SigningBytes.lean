/-
What the bytes that get signed say.  Receipts, execution attestations and
transactions are encoded apart from each other; within a kind the bytes fix the
fields, up to text moved between the strings of a receipt and up to amounts
that have no decimal form.
-/
import CraftSec.Core.Encoding
import CraftSec.Core.Reference

namespace CraftSec

theorem u64LeBytes_injective : Function.Injective u64LeBytes := by
  intro n n' heq
  exact UInt64.toNat_inj.mp (leBytes_injOn n.toNat_lt n'.toNat_lt heq)

@[simp]
theorem length_u64LeBytes (n : UInt64) : (u64LeBytes n).length = 8 :=
  leBytes_length 8 n.toNat

section Receipts

namespace AttestationReceipt

/-- The two receipts state the same. -/
def SameStatement (receipt receipt' : AttestationReceipt) : Prop :=
  receipt.programCid = receipt'.programCid ∧
    receipt.argsHash = receipt'.argsHash ∧
    receipt.resultHash = receipt'.resultHash ∧
    receipt.timestamp = receipt'.timestamp

/-- The strings of a receipt, one after the other. -/
def text (receipt : AttestationReceipt) : String :=
  receipt.programCid ++ receipt.argsHash ++ receipt.resultHash

/-- The same text at the same time, cut into the three strings at other
places. -/
def CutElsewhere (receipt receipt' : AttestationReceipt) : Prop :=
  receipt.timestamp = receipt'.timestamp ∧ receipt.text = receipt'.text ∧
    ¬ (receipt.argsHash.length = receipt'.argsHash.length ∧
      receipt.resultHash.length = receipt'.resultHash.length)

theorem signingBytes_eq_iff (receipt receipt' : AttestationReceipt) :
    receipt.signingBytes = receipt'.signingBytes ↔
      receipt.timestamp = receipt'.timestamp ∧
        receipt.text = receipt'.text := by
  have hbytes : ∀ other : AttestationReceipt, other.signingBytes =
      utf8 "CraftSEC-Receipt-v1" ++ utf8 other.text ++
        u64LeBytes other.timestamp := by
    intro other
    rw [signingBytes, text, utf8_append, utf8_append]
    simp only [List.append_assoc]
  rw [hbytes, hbytes]
  constructor
  · intro heq
    obtain ⟨htext, htimestamp⟩ := List.append_inj' heq (by simp)
    rw [List.append_cancel_left_eq] at htext
    exact ⟨u64LeBytes_injective htimestamp, utf8_injective htext⟩
  · rintro ⟨htimestamp, htext⟩
    rw [htimestamp, htext]

/-- Cut at the same places, the same text has the same parts. -/
theorem sameStatement_of_text_eq {receipt receipt' : AttestationReceipt}
    (htimestamp : receipt.timestamp = receipt'.timestamp)
    (htext : receipt.text = receipt'.text)
    (hargs : receipt.argsHash.length = receipt'.argsHash.length)
    (hresult : receipt.resultHash.length = receipt'.resultHash.length) :
    receipt.SameStatement receipt' := by
  have hlists := congrArg String.toList htext
  rw [text, text, String.toList_append, String.toList_append,
    String.toList_append, String.toList_append] at hlists
  obtain ⟨hfront, hlast⟩ := List.append_inj' hlists
    (by simpa only [String.length_toList] using hresult)
  obtain ⟨hfirst, hmiddle⟩ := List.append_inj' hfront
    (by simpa only [String.length_toList] using hargs)
  exact ⟨String.toList_inj.mp hfirst, String.toList_inj.mp hmiddle,
    String.toList_inj.mp hlast, htimestamp⟩

/-- The signing bytes determine a receipt exactly as far as the same text is
not cut into its strings at other places. -/
theorem determined_iff (receipt receipt' : AttestationReceipt) :
    (receipt.signingBytes = receipt'.signingBytes →
        receipt.SameStatement receipt') ↔
      ¬ receipt.CutElsewhere receipt' := by
  rw [signingBytes_eq_iff]
  constructor
  · rintro hdetermined ⟨htimestamp, htext, hlengths⟩
    obtain ⟨-, hargs, hresult, -⟩ := hdetermined ⟨htimestamp, htext⟩
    exact hlengths ⟨by rw [hargs], by rw [hresult]⟩
  · rintro hcut ⟨htimestamp, htext⟩
    by_cases hlengths : receipt.argsHash.length = receipt'.argsHash.length ∧
        receipt.resultHash.length = receipt'.resultHash.length
    · exact sameStatement_of_text_eq htimestamp htext hlengths.1 hlengths.2
    · exact absurd ⟨htimestamp, htext, hlengths⟩ hcut

end AttestationReceipt

theorem length_hexEncode (bytes : Bytes) :
    (hexEncode bytes).length = 2 * bytes.length := by
  rw [hexEncode, String.length_ofList]
  induction bytes with
  | nil => rfl
  | cons byte rest ih =>
      rw [List.flatMap_cons, List.length_append, ih, List.length_cons]
      simp only [List.length_cons, List.length_nil]
      omega

/-- The signing bytes determine a receipt exactly as far as the same text is
not cut into its strings at other places, which two receipts that were made
here never are. -/
theorem receipt_determined_iff [Sha256] (receipt receipt' : AttestationReceipt) :
    ((receipt.signingBytes = receipt'.signingBytes →
        receipt.SameStatement receipt') ↔
      ¬ receipt.CutElsewhere receipt') ∧
    ∀ programCid programCid' args args' result result' timestamp timestamp',
      ¬ (AttestationReceipt.new programCid args result
          timestamp).CutElsewhere
        (AttestationReceipt.new programCid' args' result' timestamp') := by
  refine ⟨AttestationReceipt.determined_iff receipt receipt', ?_⟩
  rintro programCid programCid' args args' result result' timestamp timestamp'
    ⟨-, -, hlengths⟩
  apply hlengths
  simp only [AttestationReceipt.new, length_hexEncode, Vector.length_toList,
    and_self]

/-- A receipt as JSON text, from strings that need no escape. -/
def receiptJson (programCid argsHash resultHash : String) : String :=
  "\x7b\"program_cid\":\"" ++ programCid ++ "\",\"args_hash\":\"" ++
    argsHash ++ "\",\"result_hash\":\"" ++ resultHash ++
    "\",\"timestamp\":42,\"node_signatures\":[]\x7d"

/-- The tree of that text. -/
def receiptTree (programCid argsHash resultHash : String) : Json :=
  .object
    [("program_cid", .string programCid), ("args_hash", .string argsHash),
     ("result_hash", .string resultHash), ("timestamp", .number (.posInt 42)),
     ("node_signatures", .array [])]

/-- A parser of the texts of such receipts. -/
@[reducible]
def receiptParser (receipts : List (String × String × String)) :
    SerdeJsonText where
  syntaxTree text :=
    (receipts.find? fun (programCid, argsHash, resultHash) =>
      receiptJson programCid argsHash resultHash == text).map
        fun (programCid, argsHash, resultHash) =>
          receiptTree programCid argsHash resultHash
  receiptError _ := "expected value at line 1 column 1"

/-- Three letters of the program's name are read as the start of the hash of
the arguments. -/
theorem receipt_text_cut_elsewhere :
    letI := receiptParser [("Qm_transfer", "aabb", "ccdd"),
      ("Qm_trans", "feraabb", "ccdd")]
    ∃ receipt receipt' : AttestationReceipt,
      AttestationReceipt.fromJson (receiptJson "Qm_transfer" "aabb" "ccdd") =
          .ok receipt ∧
        AttestationReceipt.fromJson (receiptJson "Qm_trans" "feraabb" "ccdd") =
          .ok receipt' ∧
        receipt.signingBytes = receipt'.signingBytes ∧
        receipt.programCid = "Qm_transfer" ∧
        receipt'.programCid = "Qm_trans" ∧
        ¬ receipt.SameStatement receipt' := by
  refine ⟨⟨"Qm_transfer", "aabb", "ccdd", 42, []⟩,
    ⟨"Qm_trans", "feraabb", "ccdd", 42, []⟩, by decide +kernel,
    by decide +kernel, by decide +kernel, rfl, rfl, ?_⟩
  rintro ⟨hprogram, -⟩
  revert hprogram
  decide

end Receipts

section Attestations

/-- The fixed-width fields at the end let the program's name be read. -/
theorem ExecutionAttestation.signingBytes_injective
    {programCid programCid' : String}
    {inputHash inputHash' outputHash outputHash' : Vector UInt8 32}
    {timestampMs timestampMs' : UInt64}
    (heq : ExecutionAttestation.signingBytes programCid inputHash outputHash
        timestampMs =
      ExecutionAttestation.signingBytes programCid' inputHash' outputHash'
        timestampMs') :
    programCid = programCid' ∧ inputHash = inputHash' ∧
      outputHash = outputHash' ∧ timestampMs = timestampMs' := by
  obtain ⟨hthree, htimestamp⟩ := List.append_inj' heq (by simp)
  obtain ⟨htwo, houtput⟩ := List.append_inj' hthree (by simp)
  obtain ⟨hone, hinput⟩ := List.append_inj' htwo (by simp)
  rw [List.append_cancel_left_eq] at hone
  exact ⟨utf8_injective hone, Vector.toList_inj.mp hinput,
    Vector.toList_inj.mp houtput, u64LeBytes_injective htimestamp⟩

/-- The tenth byte tells the two tags apart. -/
theorem ExecutionAttestation.signingBytes_ne_receipt (programCid : String)
    (inputHash outputHash : Vector UInt8 32) (timestampMs : UInt64)
    (receipt : AttestationReceipt) :
    ExecutionAttestation.signingBytes programCid inputHash outputHash
      timestampMs ≠ receipt.signingBytes := by
  intro heq
  have htenth := congrArg (fun bytes : Bytes => bytes[9]?) heq
  rw [signingBytes, AttestationReceipt.signingBytes] at htenth
  simp only [List.append_assoc] at htenth
  rw [List.getElem?_append_left (by decide), List.getElem?_append_left (by decide)]
    at htenth
  revert htenth
  decide

/-- A transaction begins with a brace. -/
theorem Transaction.head_signingBytes [FloatFormat] (tx : Transaction) :
    tx.signingBytes.head? = some 0x7b := rfl

theorem statements_encoded_apart [FloatFormat] :
    (∀ programCid programCid' inputHash inputHash' outputHash outputHash'
        timestampMs timestampMs',
      ExecutionAttestation.signingBytes programCid inputHash outputHash
          timestampMs =
        ExecutionAttestation.signingBytes programCid' inputHash' outputHash'
          timestampMs' →
      programCid = programCid' ∧ inputHash = inputHash' ∧
        outputHash = outputHash' ∧ timestampMs = timestampMs') ∧
    (∀ programCid inputHash outputHash timestampMs
        (receipt : AttestationReceipt),
      ExecutionAttestation.signingBytes programCid inputHash outputHash
        timestampMs ≠ receipt.signingBytes) ∧
    (∀ programCid inputHash outputHash timestampMs (tx : Transaction),
      ExecutionAttestation.signingBytes programCid inputHash outputHash
        timestampMs ≠ tx.signingBytes) ∧
    ∀ (receipt : AttestationReceipt) (tx : Transaction),
      receipt.signingBytes ≠ tx.signingBytes := by
  have hattest : ∀ programCid inputHash outputHash timestampMs,
      (ExecutionAttestation.signingBytes programCid inputHash outputHash
        timestampMs).head? = some 0x43 := fun _ _ _ _ => rfl
  have hreceipt : ∀ receipt : AttestationReceipt,
      receipt.signingBytes.head? = some 0x43 := fun _ => rfl
  refine ⟨fun _ _ _ _ _ _ _ _ heq =>
      ExecutionAttestation.signingBytes_injective heq,
    ExecutionAttestation.signingBytes_ne_receipt, ?_, ?_⟩
  · intro programCid inputHash outputHash timestampMs tx heq
    have hhead := congrArg List.head? heq
    rw [hattest, tx.head_signingBytes] at hhead
    cases hhead
  · intro receipt tx heq
    have hhead := congrArg List.head? heq
    rw [hreceipt, tx.head_signingBytes] at hhead
    cases hhead

end Attestations

section Transactions

/-- A NaN: the exponent is all ones and the mantissa is not zero. -/
def F64.isNan (x : F64) : Bool :=
  !x.isFinite && x.bits &&& 0xfffffffffffff != 0

/-- The same float, or two NaNs. -/
def F64.Same (x x' : F64) : Prop :=
  x = x' ∨ x.isNan ∧ x'.isNan

/-- What is relied on of the crate that prints floats: a finite float is printed
as a number, and different ones are printed differently. -/
class LawfulFloatFormat [FloatFormat] : Prop where
  isNumberByte : ∀ (x : F64) (byte : UInt8), x.isFinite →
    byte ∈ FloatFormat.formatFinite x → IsNumberByte byte
  injOn : ∀ x x' : F64, x.isFinite → x'.isFinite →
    FloatFormat.formatFinite x = FloatFormat.formatFinite x' → x = x'

variable [FloatFormat]

/-- All nine fields agree, amounts up to the payload of a NaN. -/
def Transaction.Same (tx tx' : Transaction) : Prop :=
  { tx with amount := tx'.amount } = tx' ∧ tx.amount.Same tx'.amount

variable [LawfulFloatFormat]

theorem delimited_writeF64 (x x' : F64) :
    Delimited (writeF64 x) (writeF64 x') := by
  have hbytes : ∀ (y : F64) (byte : UInt8), byte ∈ writeF64 y →
      ¬ EndsValue byte := by
    intro y byte hbyte
    rw [writeF64] at hbyte
    split at hbyte
    next hfinite =>
      exact not_endsValue_of_isNumberByte
        (LawfulFloatFormat.isNumberByte y byte hfinite hbyte)
    next =>
      have hnull : ∀ b ∈ utf8 "null", b ≠ 0x2c ∧ b ≠ 0x7d := by
        decide +kernel
      obtain ⟨hcomma, hbrace⟩ := hnull byte hbyte
      rintro (hsame | hsame)
      · exact hcomma hsame
      · exact hbrace hsame
  exact delimited_of_forall (hbytes x) (hbytes x')

/-- A finite float is not printed as `null`. -/
theorem formatFinite_ne_null {x : F64} (hfinite : x.isFinite) :
    FloatFormat.formatFinite x ≠ utf8 "null" := by
  intro hnull
  have hletter : (0x6e : UInt8) ∈ FloatFormat.formatFinite x := by
    rw [hnull]
    decide
  have hbyte := LawfulFloatFormat.isNumberByte x 0x6e hfinite hletter
  revert hbyte
  decide

/-- Amounts are written alike when they are equal, or have no decimal form. -/
theorem writeF64_eq_iff (x x' : F64) :
    writeF64 x = writeF64 x' ↔
      x = x' ∨ x.isFinite = false ∧ x'.isFinite = false := by
  rw [writeF64, writeF64]
  cases hfinite : x.isFinite with
  | true =>
      cases hfinite' : x'.isFinite with
      | true =>
          simp only [if_true, Bool.true_eq_false, and_self, or_false]
          constructor
          · exact LawfulFloatFormat.injOn x x' hfinite hfinite'
          · rintro rfl
            rfl
      | false =>
          simp only [if_true, Bool.false_eq_true, if_false, Bool.true_eq_false,
            false_and, or_false]
          constructor
          · exact fun hnull => absurd hnull (formatFinite_ne_null hfinite)
          · rintro rfl
            rw [hfinite] at hfinite'
            cases hfinite'
  | false =>
      cases hfinite' : x'.isFinite with
      | true =>
          simp only [if_true, Bool.false_eq_true, if_false, Bool.true_eq_false,
            and_false, or_false]
          constructor
          · exact fun hnull => absurd hnull.symm (formatFinite_ne_null hfinite')
          · rintro rfl
            rw [hfinite] at hfinite'
            cases hfinite'
      | false => simp

/-- What two transactions with the same signing bytes can differ in. -/
theorem Transaction.signingBytes_eq_iff (tx tx' : Transaction) :
    tx.signingBytes = tx'.signingBytes ↔
      { tx with amount := tx'.amount } = tx' ∧
        (tx.amount = tx'.amount ∨
          tx.amount.isFinite = false ∧ tx'.amount.isFinite = false) := by
  rw [← writeF64_eq_iff]
  constructor
  · intro heq
    have hmembers := writeObject_injective (by
      repeat' apply List.Forall₂.cons
      · exact ⟨rfl, delimited_writeU64 _ _⟩
      · exact ⟨rfl, delimited_writeString _ _⟩
      · exact ⟨rfl, delimited_writeString _ _⟩
      · exact ⟨rfl, delimited_writeString _ _⟩
      · exact ⟨rfl, delimited_writeF64 _ _⟩
      · exact ⟨rfl, delimited_writeString _ _⟩
      · exact ⟨rfl, delimited_writeU64 _ _⟩
      · exact ⟨rfl, delimited_writeString _ _⟩
      · exact ⟨rfl, delimited_writeString _ _⟩
      · exact List.Forall₂.nil) heq
    simp only [List.cons.injEq, Prod.mk.injEq, true_and, and_true,
      isPrefixCode_writeString.injective.eq_iff,
      writeU64_injective.eq_iff] at hmembers
    obtain ⟨hseq, hprev, hsender, hrecipient, hamount, hasset, htimestamp,
      hprogram, hsig⟩ := hmembers
    refine ⟨?_, hamount⟩
    rw [hseq, hprev, hsender, hrecipient, hasset, htimestamp, hprogram, hsig]
  · rintro ⟨hfields, hamount⟩
    rw [← hfields]
    simp only [Transaction.signingBytes, hamount]

omit [FloatFormat] [LawfulFloatFormat] in
/-- The transactions differ in their amounts alone, and neither amount has a
decimal form. -/
def Transaction.DifferInNulls (tx tx' : Transaction) : Prop :=
  { tx with amount := tx'.amount } = tx' ∧ tx.amount.isFinite = false ∧
    tx'.amount.isFinite = false ∧ ¬ tx.amount.Same tx'.amount

/-- The signing bytes determine a transaction exactly as far as it does not
differ from the other one in an amount that is written as `null`. -/
theorem transaction_determined_iff (tx tx' : Transaction) :
    (tx.signingBytes = tx'.signingBytes → tx.Same tx') ↔
      ¬ tx.DifferInNulls tx' := by
  rw [Transaction.signingBytes_eq_iff]
  constructor
  · rintro hdetermined ⟨hfields, hfinite, hfinite', hdiffer⟩
    exact hdiffer (hdetermined ⟨hfields, Or.inr ⟨hfinite, hfinite'⟩⟩).2
  · rintro hnulls ⟨hfields, hamount⟩
    refine ⟨hfields, ?_⟩
    rcases hamount with hsame | ⟨hfinite, hfinite'⟩
    · exact Or.inl hsame
    · by_contra hdiffer
      exact hnulls ⟨hfields, hfinite, hfinite', hdiffer⟩

end Transactions

section Amounts

theorem lawfulFloatFormat_reference : @LawfulFloatFormat floatFormatReference := by
  let _ := floatFormatReference
  have hzero : ∀ byte ∈ utf8 "0.0", IsNumberByte byte := by decide +kernel
  have hone : ∀ byte ∈ utf8 "1.0", IsNumberByte byte := by decide +kernel
  -- a decimal point sets the two short forms apart from the others
  have hpoint : ∀ n, (0x2e : UInt8) ∉ (Nat.toDigits 10 n).map fun digit =>
      UInt8.ofNat digit.toNat := by
    intro n hmem
    obtain ⟨digit, hdigit, hbyte⟩ := List.mem_map.mp hmem
    have hnat := congrArg UInt8.toNat hbyte
    rw [toNat_digit_byte hdigit] at hnat
    have hbounds := (toNat_bounds_of_mem_toDigits hdigit).1
    rw [hnat] at hbounds
    revert hbounds
    decide
  constructor
  · intro x byte _ hbyte
    change byte ∈ (if x.bits = 0 then utf8 "0.0"
      else if x.bits = 0x3ff0000000000000 then utf8 "1.0"
      else (Nat.toDigits 10 x.bits.toNat).map fun digit =>
        UInt8.ofNat digit.toNat) at hbyte
    split_ifs at hbyte
    · exact hzero byte hbyte
    · exact hone byte hbyte
    · exact isNumberByte_of_mem_digits hbyte
  · rintro ⟨bits⟩ ⟨bits'⟩ _ _ heq
    change (if bits = 0 then utf8 "0.0"
      else if bits = 0x3ff0000000000000 then utf8 "1.0"
      else (Nat.toDigits 10 bits.toNat).map fun digit =>
        UInt8.ofNat digit.toNat) =
      (if bits' = 0 then utf8 "0.0"
      else if bits' = 0x3ff0000000000000 then utf8 "1.0"
      else (Nat.toDigits 10 bits'.toNat).map fun digit =>
        UInt8.ofNat digit.toNat) at heq
    split_ifs at heq with hbits hbits' hbits' hbits hbits' hbits' hbits' hbits'
    · rw [hbits, hbits']
    · exact absurd heq (by decide)
    · exact absurd (heq ▸ by decide) (hpoint bits'.toNat)
    · exact absurd heq (by decide)
    · rw [hbits, hbits']
    · exact absurd (heq ▸ by decide) (hpoint bits'.toNat)
    · exact absurd (heq ▸ by decide) (hpoint bits.toNat)
    · exact absurd (heq ▸ by decide) (hpoint bits.toNat)
    · rw [UInt64.toNat_inj.mp (toDigits_bytes_injective heq)]

/-- A payment of an amount. -/
def paymentOf (amount : F64) : Transaction where
  seq := 1
  prevHash := "abc"
  sender := "did:alice"
  recipient := "did:bob"
  amount := amount
  asset := "USDC"
  timestamp := 1000
  programCid := "Qm_transfer"
  userSig := "deadbeef"

/-- Zero and one are told apart. -/
theorem transaction_determined_amounts :
    letI := floatFormatReference
    (paymentOf ⟨0⟩).signingBytes ≠
      (paymentOf ⟨0x3ff0000000000000⟩).signingBytes := by
  let _ := floatFormatReference
  have _ := lawfulFloatFormat_reference
  intro heq
  have hsame := (transaction_determined_iff _ _).mpr ?_ heq
  · rcases hsame.2 with hamount | ⟨hnan, -⟩
    · revert hamount
      decide
    · revert hnan
      decide
  · rintro ⟨-, hfinite, -⟩
    revert hfinite
    decide

/-- An infinite amount and one that is not a number are both written as
`null`. -/
theorem transaction_amounts_null :
    letI := floatFormatReference
    (paymentOf ⟨0x7ff0000000000000⟩).signingBytes =
        (paymentOf ⟨0x7ff8000000000000⟩).signingBytes ∧
      ¬ (paymentOf ⟨0x7ff0000000000000⟩).Same
        (paymentOf ⟨0x7ff8000000000000⟩) := by
  let _ := floatFormatReference
  refine ⟨by decide +kernel, ?_⟩
  rintro ⟨-, hamount | ⟨hnan, -⟩⟩
  · revert hamount
    decide
  · revert hnan
    decide

end Amounts

end CraftSec
