import CilRestore.Proofs.Code.Fitting

/-!
# Numbers as operands

The operand bytes of an opcode hold the numbers of one range, signed or not. A number that they hold
is written, and read as the same number again. A number out of the range is refused in every width
but one: in the one byte of `ldc.i4.s`, `unaligned.` and `no.` it is cut to its low eight bits, and
another number is read, which differs by a multiple of 256 (`Pool.encode_number`).
-/

namespace CilRestore

/-- Whether an operand of this kind is a number or the number of a variable. -/
def OperandKind.isNumber : OperandKind → Bool
  | shortVariable | longVariable | shortInteger | integer | longInteger => true
  | _ => false

namespace Opcode

/-- The numbers that the operand bytes of an opcode hold: the least one, and the one behind the
greatest. Of the opcodes with a number in one byte only `ldc.i4.s` has a signed one; the others are
prefixes with flags. -/
def bounds (op : Opcode) : Int × Int :=
  match op.operand with
  | .shortVariable => (0, 2 ^ 8)
  | .longVariable => (0, 2 ^ 16)
  | .shortInteger => if op.value = loadSignedByte then (-2 ^ 7, 2 ^ 7) else (0, 2 ^ 8)
  | .integer => (-2 ^ 31, 2 ^ 31)
  | .longInteger => (-2 ^ 63, 2 ^ 63)
  | _ => (0, 0)

/-- The operand bytes of an opcode hold a number. -/
def Holds (op : Opcode) (n : Int) : Prop := op.bounds.1 ≤ n ∧ n < op.bounds.2

instance (op : Opcode) (n : Int) : Decidable (op.Holds n) := inferInstanceAs (Decidable (_ ∧ _))

variable {op : Opcode} {n : Int}

/-- A number that the bytes hold is an operand that fits. -/
theorem Holds.fits (hk : op.operand.isNumber) (h : op.Holds n) (scope : Scope) :
    (Operand.integer n).Fits scope op := by
  unfold OperandKind.isNumber at hk
  unfold Holds bounds at h
  unfold Operand.Fits
  cases ho : op.operand <;> simp only [ho] at hk h ⊢
  case shortInteger =>
    refine ⟨n, rfl, ?_⟩
    split <;> rename_i hv
    · rwa [if_pos hv] at h
    · rwa [if_neg hv] at h
  case shortVariable | longVariable | integer | longInteger => exact ⟨n, h.1, h.2, rfl⟩
  all_goals cases hk

/-- An opcode with a number is neither a switch nor a branch. -/
theorem plain_of_isNumber (h : op.operand.isNumber) : ¬ op.isSwitch ∧ ¬ op.isBranch := by
  unfold OperandKind.isNumber at h
  cases hk : op.operand <;> simp [hk, isSwitch, isBranch] at h ⊢

/-- One byte holds one number of each remainder. -/
theorem exists_holds (hk : op.operand = .shortInteger) (n : Int) :
    ∃ m, op.Holds m ∧ (n - m) % 256 = 0 := by
  unfold Holds bounds
  simp only [hk]
  split
  · by_cases hn : n % 256 < 2 ^ 7
    · exact ⟨n % 256, by omega, by omega⟩
    · exact ⟨n % 256 - 256, by omega, by omega⟩
  · exact ⟨n % 256, by omega, by omega⟩

end Opcode

/-- Code of one chunk without targets decodes to what is read of its operand. -/
theorem decode_chunk {scope : Scope} {owner : String} {c : Chunk} {operand : Operand}
    (hc : c.IsComplete) (hs : ¬ c.opcode.isSwitch) (hb : ¬ c.opcode.isBranch)
    (hr : Decode.operand scope owner 0 c.size c.opcode c.operand = .ok (.ready operand)) :
    decode scope owner c.bytes = .ok #[⟨c.opcode, operand, 0, 0⟩] := by
  refine decode_eq_ok.mpr ⟨[c], ⟨by simpa using hc, by simp⟩, DecodesTo.of_becomes rfl ?_⟩
  intro place d hd
  cases place with
  | zero =>
    simp only [List.getElem?_cons_zero, Option.some.injEq] at hd
    subst hd
    exact ⟨operand, .plain operand hs hb (by rwa [Chunk.startOf_zero, Nat.zero_add]), rfl⟩
  | succ place => simp at hd

namespace Pool

variable {op : Opcode} {n m : Int}

/-- Only the number of an operand counts where there is to be one. -/
theorem encode_of_number? (p : Pool) {i : Instruction} (hk : i.opcode.operand.isNumber)
    (hn : i.operand.number? = some n) : p.encode i = p.encode { i with operand := .integer n } := by
  have hnumber : i.operand.number = (Operand.integer n).number := by
    unfold Operand.number
    rw [hn]
    rfl
  unfold OperandKind.isNumber at hk
  unfold encode encodeOperand
  cases h : i.opcode.operand <;> simp [h] at hk <;> simp only [hnumber]

/-- A number that the operand bytes hold is written, and read as that number. -/
theorem encode_held (p : Pool) (scope : Scope) (owner : String) (hop : op ∈ Opcode.all)
    (hk : op.operand.isNumber) (hn : op.Holds n) (offset index : Int) :
    ∃ bytes, p.encode ⟨op, .integer n, offset, index⟩ = .ok bytes ∧
      decode scope owner bytes = .ok #[⟨op, .integer n, 0, 0⟩] := by
  obtain ⟨hs, hb⟩ := Opcode.plain_of_isNumber hk
  obtain ⟨bytes, hlen, hwritten, hread⟩ := (hn.fits hk scope).written_read hs hb
  refine ⟨op.bytes ++ bytes, Sequence.map_eq_ok.mpr ⟨bytes, hwritten p offset index, rfl⟩, ?_⟩
  exact decode_chunk (c := ⟨op, bytes⟩) ⟨hop, by rw [if_neg hs, hlen]⟩ hs hb (hread owner _ _)

/-- Where a number has more than one byte or is that of a variable, it is refused when it does not
fit. -/
theorem encode_refused (p : Pool) (hk : op.operand.isNumber) (hb : op.operand ≠ .shortInteger)
    (hn : ¬ op.Holds n) (offset index : Int) :
    p.encode ⟨op, .integer n, offset, index⟩ = .error .overflow := by
  refine Sequence.map_eq_error.mpr ?_
  unfold Opcode.Holds Opcode.bounds at hn
  unfold OperandKind.isNumber at hk
  unfold encodeOperand
  cases h : op.operand <;> simp only [h] at hk hb hn ⊢
  case shortVariable | longVariable =>
    simp only [Operand.number, Operand.number?, Sequence.ok_bind, Bytes.unsigned?]
    rw [if_neg (by norm_num at hn ⊢; omega)]
    rfl
  case integer | longInteger =>
    simp only [Operand.number, Operand.number?, Sequence.ok_bind, Bytes.signed?]
    rw [if_neg (by norm_num at hn ⊢; omega)]
    rfl
  all_goals simp at hk hb

/-- Numbers with the same remainder are the same in one byte. -/
theorem encode_cut (p : Pool) (hk : op.operand = .shortInteger) (h : (n - m) % 256 = 0)
    (offset index : Int) : p.encode ⟨op, .integer n, offset, index⟩ =
      p.encode ⟨op, .integer m, offset, index⟩ := by
  have hmod : n % 256 = m % 256 := by omega
  simp only [encode, encodeOperand, hk, Operand.number, Operand.number?, Functor.map, Except.map,
    hmod]

/-- A number as the operand of an opcode that has one is written when the operand bytes hold it, and
then read as the same number. A number that they do not hold is refused, unless it has to go into
one byte that is not the number of a variable: then a number that the byte holds is written in its
place, and the two differ by a multiple of 256. -/
theorem encode_number (p : Pool) (scope : Scope) (owner : String) {i : Instruction} {n : Int}
    (hop : i.opcode ∈ Opcode.all) (hk : i.opcode.operand.isNumber)
    (hn : i.operand.number? = some n) :
    (i.opcode.Holds n → ∃ bytes, p.encode i = .ok bytes ∧
      decode scope owner bytes = .ok #[⟨i.opcode, .integer n, 0, 0⟩]) ∧
    (¬ i.opcode.Holds n → i.opcode.operand ≠ .shortInteger → p.encode i = .error .overflow) ∧
    (¬ i.opcode.Holds n → i.opcode.operand = .shortInteger → ∃ bytes m, p.encode i = .ok bytes ∧
      decode scope owner bytes = .ok #[⟨i.opcode, .integer m, 0, 0⟩] ∧
      i.opcode.Holds m ∧ m ≠ n ∧ (n - m) % 256 = 0) := by
  rw [p.encode_of_number? hk hn]
  refine ⟨fun hheld => ?_, fun hout hb => ?_, fun hout hb => ?_⟩
  · exact p.encode_held scope owner hop hk hheld i.offset i.index
  · exact p.encode_refused hk hb hout i.offset i.index
  · obtain ⟨m, hheld, hmod⟩ := Opcode.exists_holds hb n
    obtain ⟨bytes, hwritten, hread⟩ := p.encode_held scope owner hop hk hheld i.offset i.index
    rw [← p.encode_cut hb hmod] at hwritten
    exact ⟨bytes, m, hwritten, hread, hheld, fun he => hout (he ▸ hheld), hmod⟩

/-- The opcode that pushes a signed byte. -/
def pushSignedByte : Opcode := ⟨0x1F, "ldc.i4.s", .shortInteger, some 0, some 1, .next⟩

/-- The opcode that pushes a signed number of four bytes. -/
def pushNumber : Opcode := ⟨0x20, "ldc.i4", .integer, some 0, some 1, .next⟩

/-- The least number of four bytes comes back, the one below it is refused, and in one byte 300
comes back as 44. -/
theorem encode_number_of_pushed :
    (∃ bytes, encode #[] ⟨pushNumber, .integer (-2 ^ 31), -1, -1⟩ = .ok bytes ∧
      decode .empty "" bytes = .ok #[⟨pushNumber, .integer (-2 ^ 31), 0, 0⟩]) ∧
    encode #[] ⟨pushNumber, .integer (-2 ^ 31 - 1), -1, -1⟩ = .error .overflow ∧
    ∃ bytes, encode #[] ⟨pushSignedByte, .integer 300, -1, -1⟩ = .ok bytes ∧
      decode .empty "" bytes = .ok #[⟨pushSignedByte, .integer 44, 0, 0⟩] := by
  have hall : pushNumber ∈ Opcode.all ∧ pushSignedByte ∈ Opcode.all := by decide +kernel
  refine ⟨?_, ?_, ?_⟩
  · exact (encode_number #[] .empty "" (i := ⟨pushNumber, .integer (-2 ^ 31), -1, -1⟩) hall.1
      rfl rfl).1 (by decide)
  · exact (encode_number #[] .empty "" (i := ⟨pushNumber, .integer (-2 ^ 31 - 1), -1, -1⟩)
      hall.1 rfl rfl).2.1 (by decide) (by decide)
  · obtain ⟨bytes, m, hwritten, hread, hheld, -, hmod⟩ := (encode_number #[] .empty ""
      (i := ⟨pushSignedByte, .integer 300, -1, -1⟩) hall.2 rfl rfl).2.2 (by decide) rfl
    have hm : m = 44 := by
      have hrange : -2 ^ 7 ≤ m ∧ m < 2 ^ 7 := hheld
      omega
    exact ⟨bytes, hwritten, hm ▸ hread⟩

/-- A number that does not fit may be replaced by another one without a fault. -/
theorem encode_replaces_number :
    ¬ ∀ (p : Pool) (scope : Scope) (owner : String) (i : Instruction) (n : Int),
      i.opcode ∈ Opcode.all → i.opcode.operand.isNumber → i.operand.number? = some n →
      (∃ e, p.encode i = .error e) ∨ ∃ bytes, p.encode i = .ok bytes ∧
        decode scope owner bytes = .ok #[⟨i.opcode, .integer n, 0, 0⟩] := by
  intro h
  have hwritten : encode #[] ⟨pushSignedByte, .integer 300, -1, -1⟩ = .ok [0x1F, 44] := rfl
  have hread : decode .empty "" [0x1F, 44] = .ok #[⟨pushSignedByte, .integer 44, 0, 0⟩] :=
    Sequence.toOption_eq_some.mp (by decide +kernel)
  obtain ⟨e, he⟩ | ⟨bytes, hbytes, hsame⟩ := h #[] .empty ""
    ⟨pushSignedByte, .integer 300, -1, -1⟩ 300 (by decide +kernel) rfl rfl
  · rw [hwritten] at he
    cases he
  · rw [hwritten, Except.ok.injEq] at hbytes
    rw [← hbytes, hread] at hsame
    revert hsame
    decide

end Pool

end CilRestore
