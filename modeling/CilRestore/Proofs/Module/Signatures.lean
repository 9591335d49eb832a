import CilRestore.Proofs.Metadata.TablesStream
import CilRestore.Proofs.Module.Opened

/-!
# Method signatures

A method signature as ECMA-335 lays it out: the calling convention, the numbers of generic
parameters and of parameters, the return type behind its custom modifiers, and the types of the
parameters. Its head reads back, however many modifiers there are and whatever the widths of the
numbers (`WrittenSignature.parse_bytes`), so an instruction that calls the method takes and leaves
what the signature says (`WrittenSignature.parse_written`). No other bytes do more than fail as a
signature.
-/

namespace CilRestore

-- Powers and sums of numbers are those of the core library, whatever else is imported.
attribute [local instance (high)] instPowNat Zero.ofOfNat0

/-! ### What is written -/

/-- A custom modifier of a type. -/
structure CustomModifier where
  /-- Whether whoever does not know it has to refuse the type. -/
  required : Bool
  /-- The type that it is, as a packed token. -/
  token : Nat
  /-- The token has a compressed form. -/
  token_lt : token < 2 ^ (29 : Nat)

namespace CustomModifier

/-- The bytes of a modifier. -/
def bytes (modifier : CustomModifier) : Bytes :=
  (if modifier.required then 0x1F else 0x20) :: Compressed.encode modifier.token

end CustomModifier

/-- What a type may begin with. -/
inductive ElementType where
  | boolean | char | i1 | u1 | i2 | u2 | i4 | u4 | i8 | u8 | r4 | r8 | string | pointer | valueType
  | classType | typeVariable | array | genericInstance | nativeInt | nativeUnsigned | functionPointer
  | object | vector | methodVariable
  deriving DecidableEq, Repr

/-- The byte of it. -/
def ElementType.code : ElementType → UInt8
  | boolean => 0x02
  | char => 0x03
  | i1 => 0x04
  | u1 => 0x05
  | i2 => 0x06
  | u2 => 0x07
  | i4 => 0x08
  | u4 => 0x09
  | i8 => 0x0A
  | u8 => 0x0B
  | r4 => 0x0C
  | r8 => 0x0D
  | string => 0x0E
  | pointer => 0x0F
  | valueType => 0x11
  | classType => 0x12
  | typeVariable => 0x13
  | array => 0x14
  | genericInstance => 0x15
  | nativeInt => 0x18
  | nativeUnsigned => 0x19
  | functionPointer => 0x1B
  | object => 0x1C
  | vector => 0x1D
  | methodVariable => 0x1E

/-- A return type behind its modifiers. Of a type only the beginning matters here, so that what
belongs to it may be any bytes. -/
inductive ReturnType where
  /-- Nothing is returned. -/
  | void
  /-- A reference that carries its type. -/
  | typedReference
  /-- A reference to a place of a type. -/
  | reference (type : Bytes)
  /-- A value of a type. -/
  | value (element : ElementType) (rest : Bytes)
  deriving DecidableEq, Repr

namespace ReturnType

/-- The bytes of a return type. -/
def bytes : ReturnType → Bytes
  | void => [0x01]
  | typedReference => [0x16]
  | reference type => 0x10 :: type
  | value element rest => element.code :: rest

/-- Whether nothing is returned. -/
def isVoid : ReturnType → Bool
  | void => true
  | _ => false

end ReturnType

/-- A method signature. -/
structure WrittenSignature where
  /-- The calling convention, and whether there are generic parameters and an instance. -/
  convention : UInt8
  /-- It is not that of a field, of local variables or of a property. -/
  kind_ne : convention.toNat % 16 ≠ 6 ∧ convention.toNat % 16 ≠ 7 ∧ convention.toNat % 16 ≠ 8
  /-- The number of generic parameters, if there are any. -/
  genericCount : Nat
  /-- It has a compressed form. -/
  genericCount_lt : genericCount < 2 ^ (29 : Nat)
  /-- The number of parameters. -/
  paramCount : Nat
  /-- It has a compressed form. -/
  paramCount_lt : paramCount < 2 ^ (29 : Nat)
  /-- The modifiers of the return type. -/
  modifiers : List CustomModifier
  /-- The return type. -/
  returned : ReturnType
  /-- The types of the parameters. -/
  params : Bytes

namespace WrittenSignature

variable (b : WrittenSignature)

/-- Whether there are generic parameters. -/
def isGeneric : Bool := b.convention.toNat.testBit 4

/-- Whether an instance comes with a call that is not among the parameters. -/
def hasImplicitThis : Bool := b.convention.toNat.testBit 5 && !b.convention.toNat.testBit 6

/-- The bytes in front of the return type. -/
def front : Bytes :=
  b.convention :: ((if b.isGeneric then Compressed.encode b.genericCount else []) ++
    (Compressed.encode b.paramCount ++ b.modifiers.flatMap CustomModifier.bytes))

/-- The bytes of the signature. -/
def bytes : Bytes := b.front ++ (b.returned.bytes ++ b.params)

/-- The head of the signature. -/
def head : MethodSignature where
  convention := b.convention
  genericCount := if b.isGeneric then b.genericCount else 0
  paramCount := b.paramCount
  returnsVoid := b.returned.isVoid

/-- The arguments of a call: the parameters, and an instance that is not among them. -/
def arguments : Nat := b.paramCount + if b.hasImplicitThis then 1 else 0

/-- The results of a call. -/
def results : Nat := if b.returned.isVoid then 0 else 1

end WrittenSignature

/-! ### Reading it -/

/-- A bit of a byte, by its mask. -/
theorem UInt8.and_two_pow_ne_zero (b : UInt8) {bit : Nat} (h : bit < 8) :
    (b &&& UInt8.ofNat (2 ^ bit) != 0) = b.toNat.testBit bit := by
  have hmask : (UInt8.ofNat (2 ^ bit)).toNat = 2 ^ bit := by
    rw [UInt8.toNat_ofNat']
    exact Nat.mod_eq_of_lt (Nat.pow_lt_pow_right (by decide) h)
  rw [Bool.eq_iff_iff, bne_iff_ne, ne_eq, ← UInt8.toNat_inj, UInt8.toNat_and, hmask]
  exact TablesHead.and_two_pow_ne_zero _ bit

namespace MethodSignature

/-- Three conventions are those of signatures of other kinds. -/
theorem isOtherKind_eq (convention : UInt8) : isOtherKind convention =
    (decide (convention.toNat % 16 = 6) || decide (convention.toNat % 16 = 7) ||
      decide (convention.toNat % 16 = 8)) := by
  have hlow : (convention &&& 0x0F).toNat = convention.toNat % 16 := by
    rw [UInt8.toNat_and]
    exact Nat.and_two_pow_sub_one_eq_mod _ 4
  simp only [isOtherKind, Bool.beq_eq_decide_eq, ← UInt8.toNat_inj, hlow]
  rfl

/-- Modifiers are skipped, however many there are. -/
theorem skipModifiers_append (modifiers : List CustomModifier) {first : UInt8} (rest : Bytes)
    (h : isModifier first = false) :
    skipModifiers (modifiers.flatMap CustomModifier.bytes ++ first :: rest) =
      .ok (first :: rest) := by
  induction modifiers with
  | nil =>
    rw [List.flatMap_nil, List.nil_append, skipModifiers, h]
    rfl
  | cons modifier modifiers ih =>
    have hmodifier : isModifier (if modifier.required then 0x1F else 0x20) = true := by
      cases modifier.required <;> decide
    rw [List.flatMap_cons, CustomModifier.bytes, List.cons_append, List.cons_append,
      List.append_assoc, skipModifiers, if_pos hmodifier, Compressed.read_encode modifier.token_lt]
    simp only
    rw [List.drop_left, ih]

end MethodSignature

/-- A return type begins with a byte that is no modifier, and that tells whether it is void. -/
theorem ReturnType.exists_first (returned : ReturnType) :
    ∃ first rest, returned.bytes = first :: rest ∧ MethodSignature.isModifier first = false ∧
      (first == 0x01) = returned.isVoid := by
  cases returned with
  | void => exact ⟨_, _, rfl, rfl, rfl⟩
  | typedReference => exact ⟨_, _, rfl, rfl, rfl⟩
  | reference type => exact ⟨_, _, rfl, rfl, rfl⟩
  | value element rest => cases element <;> exact ⟨_, _, rfl, rfl, rfl⟩

namespace WrittenSignature

variable (b : WrittenSignature)

/-- The head of a signature reads back. -/
theorem parse_bytes : MethodSignature.parse b.bytes = .ok b.head := by
  obtain ⟨first, rest, hreturned, hfirst, hvoid⟩ := b.returned.exists_first
  have hkind : MethodSignature.isOtherKind b.convention = false := by
    simp [MethodSignature.isOtherKind_eq, b.kind_ne.1, b.kind_ne.2.1, b.kind_ne.2.2]
  have hgeneric : (b.convention &&& 0x10 != 0) = b.isGeneric :=
    UInt8.and_two_pow_ne_zero b.convention (by decide : 4 < 8)
  -- the bytes from the number of parameters on
  let tail := Compressed.encode b.paramCount ++
    (b.modifiers.flatMap CustomModifier.bytes ++ first :: (rest ++ b.params))
  have hparams : Compressed.read tail =
      .ok (b.paramCount, (Compressed.encode b.paramCount).length) :=
    Compressed.read_encode b.paramCount_lt _
  have hskip : MethodSignature.skipModifiers (tail.drop (Compressed.encode b.paramCount).length) =
      .ok (first :: (rest ++ b.params)) := by
    rw [List.drop_left]
    exact MethodSignature.skipModifiers_append b.modifiers (rest ++ b.params) hfirst
  have hbytes : b.bytes = b.convention ::
      ((if b.isGeneric then Compressed.encode b.genericCount else []) ++ tail) := by
    simp only [tail, bytes, front, hreturned, List.cons_append, List.append_assoc]
  rw [hbytes, MethodSignature.parse, hkind, hgeneric, head]
  cases b.isGeneric with
  | false =>
    simp only [Bool.false_eq_true, if_false, List.nil_append, pure_bind, List.drop_zero, hparams,
      Sequence.ok_bind, hskip, hvoid]
    rfl
  | true =>
    simp only [Bool.false_eq_true, if_false, if_true, Compressed.read_encode b.genericCount_lt,
      List.drop_left, hparams, Sequence.ok_bind, hskip, hvoid]
    rfl

/-- A call takes its arguments. -/
theorem pops_head : b.head.pops = b.arguments := by
  have hthis : b.head.hasThis = b.convention.toNat.testBit 5 :=
    UInt8.and_two_pow_ne_zero b.convention (by decide : 5 < 8)
  have hexplicit : b.head.hasExplicitThis = b.convention.toNat.testBit 6 :=
    UInt8.and_two_pow_ne_zero b.convention (by decide : 6 < 8)
  rw [MethodSignature.pops, hthis, hexplicit, arguments, hasImplicitThis]
  split <;> rfl

/-- It leaves its results. -/
theorem pushes_head : b.head.pushes = b.results := rfl

end WrittenSignature

/-! ### Calling the method -/

namespace ModuleRows

variable {m : ModuleRows} {r method : RowId} {bs : Bytes}

/-- A row has a method signature of its own: it is a method, a member or a signature. -/
def HoldsSignature (m : ModuleRows) (r : RowId) (bs : Bytes) : Prop :=
  r.kind ≠ .typeSpec ∧ m.signatureBytes? r = some bs

theorem HoldsSignature.methodSignatureWithin_eq (h : m.HoldsSignature r bs) (fuel : Nat) :
    m.methodSignatureWithin fuel r = MethodSignature.parse bs := by
  obtain ⟨hkind, hbytes⟩ := h
  unfold methodSignatureWithin
  rw [hbytes, Option.getD_some]
  unfold signatureBytes? at hbytes
  cases hr : r.kind with
  | methodDef => rfl
  | memberRef => rfl
  | standAloneSig => rfl
  | typeSpec => exact absurd hr hkind
  | typeRef => simp [hr] at hbytes
  | typeDef => simp [hr] at hbytes
  | field => simp [hr] at hbytes
  | methodSpec => simp [hr] at hbytes

/-- An instance of a generic method has the signature of the method. -/
theorem HoldsSignature.methodSignature_of_generic? (h : m.HoldsSignature method bs)
    (hgeneric : m.generic? r = some method) :
    m.methodSignature r = MethodSignature.parse bs := by
  have hkind : r.kind = .methodSpec := by
    unfold generic? at hgeneric
    split at hgeneric
    · assumption
    · cases hgeneric
  have htotal : 0 < m.total := by
    simp only [generic?, hkind] at hgeneric
    obtain ⟨cell, hcell, -⟩ := Option.bind_eq_some_iff.mp hgeneric
    have hpos := Array.size_pos_of_mem (Array.mem_of_getElem? hcell)
    simp only [total, RowKind.all, List.map_cons, List.sum_cons, count]
    omega
  obtain ⟨fuel, hfuel⟩ := Nat.exists_eq_add_of_lt htotal
  rw [methodSignature, hfuel]
  unfold methodSignatureWithin
  simp only [hkind, hgeneric]
  exact h.methodSignatureWithin_eq _

end ModuleRows

/-- An operand stands for a method with a signature: by a row that has it, by an instance of such a
generic method, or by itself. -/
inductive Operand.Calls (bs : Bytes) : Operand → Prop where
  /-- The row has the signature. -/
  | row {m : ModuleRows} {r : RowId} (h : m.HoldsSignature r bs) : Calls bs (.row (m.named r))
  /-- The row is an instance of a generic method that has it. -/
  | generic {m : ModuleRows} {r method : RowId} (hgeneric : m.generic? r = some method)
      (h : m.HoldsSignature method bs) : Calls bs (.row (m.named r))
  /-- The signature comes with the token. -/
  | token (value : Int) {signature : MethodSignature}
      (h : MethodSignature.parse bs = .ok signature) : Calls bs (.token value (some signature))

/-- A signature that can be read is known of the operand. -/
theorem Operand.Calls.callee_eq {bs : Bytes} {operand : Operand} (h : operand.Calls bs)
    {signature : MethodSignature} (hparse : MethodSignature.parse bs = .ok signature) :
    operand.callee = .known signature := by
  cases h with
  | @row m r h =>
    have hsignature : m.methodSignature r = .ok signature :=
      (h.methodSignatureWithin_eq _).trans hparse
    simp only [callee, ModuleRows.named, ModuleRows.callee, hsignature]
  | @generic m r method hgeneric h =>
    have hsignature : m.methodSignature r = .ok signature :=
      (h.methodSignature_of_generic? hgeneric).trans hparse
    simp only [callee, ModuleRows.named, ModuleRows.callee, hsignature]
  | token value h =>
    rw [hparse, Except.ok.injEq] at h
    rw [h, callee]

namespace Opcode

/-- The instructions that call a method by its signature. -/
theorem ofName_calls :
    ofName "call" = .ok ⟨0x28, "call", .method, none, none, .call⟩ ∧
      ofName "callvirt" = .ok ⟨0x6F, "callvirt", .method, none, none, .call⟩ ∧
      ofName "newobj" = .ok ⟨newobj, "newobj", .method, none, some 1, .call⟩ ∧
      ofName "calli" = .ok ⟨calli, "calli", .signature, none, none, .call⟩ := by
  refine ⟨?_, ?_, ?_, ?_⟩ <;> exact Sequence.toOption_eq_some.mp (by decide +kernel)

end Opcode

namespace WrittenSignature

/-- The head of a method signature reads back. An instruction that calls such a method takes its
arguments and leaves its results; one that creates an object takes the parameters and leaves the
object, and one that calls through a pointer takes the pointer as well. Other bytes are read as a
signature or fail as one. -/
theorem parse_written :
    (∀ b : WrittenSignature, MethodSignature.parse b.bytes = .ok b.head ∧
      ∀ i : Instruction, i.operand.Calls b.bytes →
        (Opcode.ofName "call" = .ok i.opcode ∨ Opcode.ofName "callvirt" = .ok i.opcode →
          i.stackEffect = .ok (b.arguments, b.results)) ∧
        (Opcode.ofName "newobj" = .ok i.opcode → i.stackEffect = .ok (b.paramCount, 1)) ∧
        (Opcode.ofName "calli" = .ok i.opcode →
          i.stackEffect = .ok (b.arguments + 1, b.results))) ∧
    ∀ bs : Bytes, (∃ signature, MethodSignature.parse bs = .ok signature) ∨
      ∃ kind, MethodSignature.parse bs = .error (.invalidSignature kind) := by
  obtain ⟨hcall, hvirtual, hnew, hpointer⟩ := Opcode.ofName_calls
  refine ⟨fun b => ⟨b.parse_bytes, fun i hcalls => ?_⟩, fun bs => ?_⟩
  · have hcallee := hcalls.callee_eq b.parse_bytes
    refine ⟨?_, fun hname => ?_, fun hname => ?_⟩
    · rintro (hname | hname)
      · rw [hcall, Except.ok.injEq] at hname
        simp only [Instruction.stackEffect, ← hname, hcallee, b.pops_head, b.pushes_head]
        rfl
      · rw [hvirtual, Except.ok.injEq] at hname
        simp only [Instruction.stackEffect, ← hname, hcallee, b.pops_head, b.pushes_head]
        rfl
    · rw [hnew, Except.ok.injEq] at hname
      simp only [Instruction.stackEffect, ← hname, hcallee]
      rfl
    · rw [hpointer, Except.ok.injEq] at hname
      simp only [Instruction.stackEffect, ← hname, hcallee, b.pops_head, b.pushes_head]
      rfl
  · cases hparse : MethodSignature.parse bs with
    | ok signature => exact Or.inl ⟨signature, rfl⟩
    | error e =>
      obtain ⟨kind, rfl⟩ := MethodSignature.parse_failsAsSignature bs e hparse
      exact Or.inr ⟨kind, rfl⟩

end WrittenSignature

/-! ### A generic method -/

namespace GenericMethod

/-- A generic instance method without result, whose return type has modifiers with tokens of every
width. -/
def signature : WrittenSignature where
  convention := 0x30
  kind_ne := by decide
  genericCount := 1
  genericCount_lt := by decide
  paramCount := 2
  paramCount_lt := by decide
  modifiers := [⟨true, 0x49, by decide⟩, ⟨false, 0x3001, by decide⟩,
    ⟨true, 0x10000001, by decide⟩]
  returned := .void
  params := [0x08, 0x1E, 0x00]

/-- A module with the method, an instance of it and the signature on its own. -/
def rows : ModuleRows where
  methods := #[⟨.text "M", none, some signature.bytes⟩]
  signatures := #[some signature.bytes]
  methodSpecs := #[some ⟨some 0x06, 1⟩]

end GenericMethod

namespace WrittenSignature

open GenericMethod

/-- Calling the method takes the two arguments and the instance, and leaves nothing. -/
theorem parse_written_of_generic :
    signature.bytes = [0x30, 0x01, 0x02, 0x1F, 0x49, 0x20, 0xB0, 0x01, 0x1F, 0xD0, 0x00, 0x00, 0x01,
      0x01, 0x08, 0x1E, 0x00] ∧
      MethodSignature.parse signature.bytes = .ok ⟨0x30, 1, 2, true⟩ ∧
      Instruction.stackEffect { opcode := ⟨0x28, "call", .method, none, none, .call⟩
                                operand := .row (rows.named ⟨.methodSpec, 1⟩) } = .ok (3, 0) ∧
      Instruction.stackEffect { opcode := ⟨0x73, "newobj", .method, none, some 1, .call⟩
                                operand := .row (rows.named ⟨.methodDef, 1⟩) } = .ok (2, 1) ∧
      Instruction.stackEffect { opcode := ⟨0x29, "calli", .signature, none, none, .call⟩
                                operand := .row (rows.named ⟨.standAloneSig, 1⟩) } = .ok (4, 0) := by
  obtain ⟨hparse, heffect⟩ := parse_written.1 signature
  have hmethod : rows.HoldsSignature ⟨.methodDef, 1⟩ signature.bytes := ⟨by decide, rfl⟩
  have halone : rows.HoldsSignature ⟨.standAloneSig, 1⟩ signature.bytes := ⟨by decide, rfl⟩
  have hgeneric : rows.generic? ⟨.methodSpec, 1⟩ = some ⟨.methodDef, 1⟩ := rfl
  obtain ⟨hcall, -, hnew, hpointer⟩ := Opcode.ofName_calls
  exact ⟨by decide, hparse, (heffect _ (.generic hgeneric hmethod)).1 (Or.inl hcall),
    (heffect _ (.row hmethod)).2.1 hnew, (heffect _ (.row halone)).2.2 hpointer⟩

end WrittenSignature

end CilRestore
