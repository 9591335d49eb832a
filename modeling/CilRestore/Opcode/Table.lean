import CilRestore.Opcode.Basic

/-!
# The table of opcodes

Every defined opcode with its operand, stack behaviour and flow, in increasing value. Look-ups go
by value and by mnemonic, and a short branch knows its long form.
-/

namespace CilRestore.Opcode

/-- Every defined opcode. -/
def all : List Opcode :=
  [ ⟨0x00, "nop", .nothing, some 0, some 0, .next⟩,
    ⟨0x01, "break", .nothing, some 0, some 0, .breakpoint⟩,
    ⟨0x02, "ldarg.0", .nothing, some 0, some 1, .next⟩,
    ⟨0x03, "ldarg.1", .nothing, some 0, some 1, .next⟩,
    ⟨0x04, "ldarg.2", .nothing, some 0, some 1, .next⟩,
    ⟨0x05, "ldarg.3", .nothing, some 0, some 1, .next⟩,
    ⟨0x06, "ldloc.0", .nothing, some 0, some 1, .next⟩,
    ⟨0x07, "ldloc.1", .nothing, some 0, some 1, .next⟩,
    ⟨0x08, "ldloc.2", .nothing, some 0, some 1, .next⟩,
    ⟨0x09, "ldloc.3", .nothing, some 0, some 1, .next⟩,
    ⟨0x0A, "stloc.0", .nothing, some 1, some 0, .next⟩,
    ⟨0x0B, "stloc.1", .nothing, some 1, some 0, .next⟩,
    ⟨0x0C, "stloc.2", .nothing, some 1, some 0, .next⟩,
    ⟨0x0D, "stloc.3", .nothing, some 1, some 0, .next⟩,
    ⟨0x0E, "ldarg.s", .shortVariable, some 0, some 1, .next⟩,
    ⟨0x0F, "ldarga.s", .shortVariable, some 0, some 1, .next⟩,
    ⟨0x10, "starg.s", .shortVariable, some 1, some 0, .next⟩,
    ⟨0x11, "ldloc.s", .shortVariable, some 0, some 1, .next⟩,
    ⟨0x12, "ldloca.s", .shortVariable, some 0, some 1, .next⟩,
    ⟨0x13, "stloc.s", .shortVariable, some 1, some 0, .next⟩,
    ⟨0x14, "ldnull", .nothing, some 0, some 1, .next⟩,
    ⟨0x15, "ldc.i4.m1", .nothing, some 0, some 1, .next⟩,
    ⟨0x16, "ldc.i4.0", .nothing, some 0, some 1, .next⟩,
    ⟨0x17, "ldc.i4.1", .nothing, some 0, some 1, .next⟩,
    ⟨0x18, "ldc.i4.2", .nothing, some 0, some 1, .next⟩,
    ⟨0x19, "ldc.i4.3", .nothing, some 0, some 1, .next⟩,
    ⟨0x1A, "ldc.i4.4", .nothing, some 0, some 1, .next⟩,
    ⟨0x1B, "ldc.i4.5", .nothing, some 0, some 1, .next⟩,
    ⟨0x1C, "ldc.i4.6", .nothing, some 0, some 1, .next⟩,
    ⟨0x1D, "ldc.i4.7", .nothing, some 0, some 1, .next⟩,
    ⟨0x1E, "ldc.i4.8", .nothing, some 0, some 1, .next⟩,
    ⟨0x1F, "ldc.i4.s", .shortInteger, some 0, some 1, .next⟩,
    ⟨0x20, "ldc.i4", .integer, some 0, some 1, .next⟩,
    ⟨0x21, "ldc.i8", .longInteger, some 0, some 1, .next⟩,
    ⟨0x22, "ldc.r4", .shortReal, some 0, some 1, .next⟩,
    ⟨0x23, "ldc.r8", .real, some 0, some 1, .next⟩,
    ⟨0x25, "dup", .nothing, some 1, some 2, .next⟩,
    ⟨0x26, "pop", .nothing, some 1, some 0, .next⟩,
    ⟨0x27, "jmp", .method, some 0, some 0, .call⟩,
    ⟨0x28, "call", .method, none, none, .call⟩,
    ⟨0x29, "calli", .signature, none, none, .call⟩,
    ⟨0x2A, "ret", .nothing, some 0, some 0, .returns⟩,
    ⟨0x2B, "br.s", .shortBranch, some 0, some 0, .branch⟩,
    ⟨0x2C, "brfalse.s", .shortBranch, some 1, some 0, .condBranch⟩,
    ⟨0x2D, "brtrue.s", .shortBranch, some 1, some 0, .condBranch⟩,
    ⟨0x2E, "beq.s", .shortBranch, some 2, some 0, .condBranch⟩,
    ⟨0x2F, "bge.s", .shortBranch, some 2, some 0, .condBranch⟩,
    ⟨0x30, "bgt.s", .shortBranch, some 2, some 0, .condBranch⟩,
    ⟨0x31, "ble.s", .shortBranch, some 2, some 0, .condBranch⟩,
    ⟨0x32, "blt.s", .shortBranch, some 2, some 0, .condBranch⟩,
    ⟨0x33, "bne.un.s", .shortBranch, some 2, some 0, .condBranch⟩,
    ⟨0x34, "bge.un.s", .shortBranch, some 2, some 0, .condBranch⟩,
    ⟨0x35, "bgt.un.s", .shortBranch, some 2, some 0, .condBranch⟩,
    ⟨0x36, "ble.un.s", .shortBranch, some 2, some 0, .condBranch⟩,
    ⟨0x37, "blt.un.s", .shortBranch, some 2, some 0, .condBranch⟩,
    ⟨0x38, "br", .branch, some 0, some 0, .branch⟩,
    ⟨0x39, "brfalse", .branch, some 1, some 0, .condBranch⟩,
    ⟨0x3A, "brtrue", .branch, some 1, some 0, .condBranch⟩,
    ⟨0x3B, "beq", .branch, some 2, some 0, .condBranch⟩,
    ⟨0x3C, "bge", .branch, some 2, some 0, .condBranch⟩,
    ⟨0x3D, "bgt", .branch, some 2, some 0, .condBranch⟩,
    ⟨0x3E, "ble", .branch, some 2, some 0, .condBranch⟩,
    ⟨0x3F, "blt", .branch, some 2, some 0, .condBranch⟩,
    ⟨0x40, "bne.un", .branch, some 2, some 0, .condBranch⟩,
    ⟨0x41, "bge.un", .branch, some 2, some 0, .condBranch⟩,
    ⟨0x42, "bgt.un", .branch, some 2, some 0, .condBranch⟩,
    ⟨0x43, "ble.un", .branch, some 2, some 0, .condBranch⟩,
    ⟨0x44, "blt.un", .branch, some 2, some 0, .condBranch⟩,
    ⟨0x45, "switch", .switch, some 1, some 0, .condBranch⟩,
    ⟨0x46, "ldind.i1", .nothing, some 1, some 1, .next⟩,
    ⟨0x47, "ldind.u1", .nothing, some 1, some 1, .next⟩,
    ⟨0x48, "ldind.i2", .nothing, some 1, some 1, .next⟩,
    ⟨0x49, "ldind.u2", .nothing, some 1, some 1, .next⟩,
    ⟨0x4A, "ldind.i4", .nothing, some 1, some 1, .next⟩,
    ⟨0x4B, "ldind.u4", .nothing, some 1, some 1, .next⟩,
    ⟨0x4C, "ldind.i8", .nothing, some 1, some 1, .next⟩,
    ⟨0x4D, "ldind.i", .nothing, some 1, some 1, .next⟩,
    ⟨0x4E, "ldind.r4", .nothing, some 1, some 1, .next⟩,
    ⟨0x4F, "ldind.r8", .nothing, some 1, some 1, .next⟩,
    ⟨0x50, "ldind.ref", .nothing, some 1, some 1, .next⟩,
    ⟨0x51, "stind.ref", .nothing, some 2, some 0, .next⟩,
    ⟨0x52, "stind.i1", .nothing, some 2, some 0, .next⟩,
    ⟨0x53, "stind.i2", .nothing, some 2, some 0, .next⟩,
    ⟨0x54, "stind.i4", .nothing, some 2, some 0, .next⟩,
    ⟨0x55, "stind.i8", .nothing, some 2, some 0, .next⟩,
    ⟨0x56, "stind.r4", .nothing, some 2, some 0, .next⟩,
    ⟨0x57, "stind.r8", .nothing, some 2, some 0, .next⟩,
    ⟨0x58, "add", .nothing, some 2, some 1, .next⟩,
    ⟨0x59, "sub", .nothing, some 2, some 1, .next⟩,
    ⟨0x5A, "mul", .nothing, some 2, some 1, .next⟩,
    ⟨0x5B, "div", .nothing, some 2, some 1, .next⟩,
    ⟨0x5C, "div.un", .nothing, some 2, some 1, .next⟩,
    ⟨0x5D, "rem", .nothing, some 2, some 1, .next⟩,
    ⟨0x5E, "rem.un", .nothing, some 2, some 1, .next⟩,
    ⟨0x5F, "and", .nothing, some 2, some 1, .next⟩,
    ⟨0x60, "or", .nothing, some 2, some 1, .next⟩,
    ⟨0x61, "xor", .nothing, some 2, some 1, .next⟩,
    ⟨0x62, "shl", .nothing, some 2, some 1, .next⟩,
    ⟨0x63, "shr", .nothing, some 2, some 1, .next⟩,
    ⟨0x64, "shr.un", .nothing, some 2, some 1, .next⟩,
    ⟨0x65, "neg", .nothing, some 1, some 1, .next⟩,
    ⟨0x66, "not", .nothing, some 1, some 1, .next⟩,
    ⟨0x67, "conv.i1", .nothing, some 1, some 1, .next⟩,
    ⟨0x68, "conv.i2", .nothing, some 1, some 1, .next⟩,
    ⟨0x69, "conv.i4", .nothing, some 1, some 1, .next⟩,
    ⟨0x6A, "conv.i8", .nothing, some 1, some 1, .next⟩,
    ⟨0x6B, "conv.r4", .nothing, some 1, some 1, .next⟩,
    ⟨0x6C, "conv.r8", .nothing, some 1, some 1, .next⟩,
    ⟨0x6D, "conv.u4", .nothing, some 1, some 1, .next⟩,
    ⟨0x6E, "conv.u8", .nothing, some 1, some 1, .next⟩,
    ⟨0x6F, "callvirt", .method, none, none, .call⟩,
    ⟨0x70, "cpobj", .type, some 2, some 0, .next⟩,
    ⟨0x71, "ldobj", .type, some 1, some 1, .next⟩,
    ⟨0x72, "ldstr", .text, some 0, some 1, .next⟩,
    ⟨0x73, "newobj", .method, none, some 1, .call⟩,
    ⟨0x74, "castclass", .type, some 1, some 1, .next⟩,
    ⟨0x75, "isinst", .type, some 1, some 1, .next⟩,
    ⟨0x76, "conv.r.un", .nothing, some 1, some 1, .next⟩,
    ⟨0x79, "unbox", .type, some 1, some 1, .next⟩,
    ⟨0x7A, "throw", .nothing, some 1, some 0, .throws⟩,
    ⟨0x7B, "ldfld", .field, some 1, some 1, .next⟩,
    ⟨0x7C, "ldflda", .field, some 1, some 1, .next⟩,
    ⟨0x7D, "stfld", .field, some 2, some 0, .next⟩,
    ⟨0x7E, "ldsfld", .field, some 0, some 1, .next⟩,
    ⟨0x7F, "ldsflda", .field, some 0, some 1, .next⟩,
    ⟨0x80, "stsfld", .field, some 1, some 0, .next⟩,
    ⟨0x81, "stobj", .type, some 2, some 0, .next⟩,
    ⟨0x82, "conv.ovf.i1.un", .nothing, some 1, some 1, .next⟩,
    ⟨0x83, "conv.ovf.i2.un", .nothing, some 1, some 1, .next⟩,
    ⟨0x84, "conv.ovf.i4.un", .nothing, some 1, some 1, .next⟩,
    ⟨0x85, "conv.ovf.i8.un", .nothing, some 1, some 1, .next⟩,
    ⟨0x86, "conv.ovf.u1.un", .nothing, some 1, some 1, .next⟩,
    ⟨0x87, "conv.ovf.u2.un", .nothing, some 1, some 1, .next⟩,
    ⟨0x88, "conv.ovf.u4.un", .nothing, some 1, some 1, .next⟩,
    ⟨0x89, "conv.ovf.u8.un", .nothing, some 1, some 1, .next⟩,
    ⟨0x8A, "conv.ovf.i.un", .nothing, some 1, some 1, .next⟩,
    ⟨0x8B, "conv.ovf.u.un", .nothing, some 1, some 1, .next⟩,
    ⟨0x8C, "box", .type, some 1, some 1, .next⟩,
    ⟨0x8D, "newarr", .type, some 1, some 1, .next⟩,
    ⟨0x8E, "ldlen", .nothing, some 1, some 1, .next⟩,
    ⟨0x8F, "ldelema", .type, some 2, some 1, .next⟩,
    ⟨0x90, "ldelem.i1", .nothing, some 2, some 1, .next⟩,
    ⟨0x91, "ldelem.u1", .nothing, some 2, some 1, .next⟩,
    ⟨0x92, "ldelem.i2", .nothing, some 2, some 1, .next⟩,
    ⟨0x93, "ldelem.u2", .nothing, some 2, some 1, .next⟩,
    ⟨0x94, "ldelem.i4", .nothing, some 2, some 1, .next⟩,
    ⟨0x95, "ldelem.u4", .nothing, some 2, some 1, .next⟩,
    ⟨0x96, "ldelem.i8", .nothing, some 2, some 1, .next⟩,
    ⟨0x97, "ldelem.i", .nothing, some 2, some 1, .next⟩,
    ⟨0x98, "ldelem.r4", .nothing, some 2, some 1, .next⟩,
    ⟨0x99, "ldelem.r8", .nothing, some 2, some 1, .next⟩,
    ⟨0x9A, "ldelem.ref", .nothing, some 2, some 1, .next⟩,
    ⟨0x9B, "stelem.i", .nothing, some 3, some 0, .next⟩,
    ⟨0x9C, "stelem.i1", .nothing, some 3, some 0, .next⟩,
    ⟨0x9D, "stelem.i2", .nothing, some 3, some 0, .next⟩,
    ⟨0x9E, "stelem.i4", .nothing, some 3, some 0, .next⟩,
    ⟨0x9F, "stelem.i8", .nothing, some 3, some 0, .next⟩,
    ⟨0xA0, "stelem.r4", .nothing, some 3, some 0, .next⟩,
    ⟨0xA1, "stelem.r8", .nothing, some 3, some 0, .next⟩,
    ⟨0xA2, "stelem.ref", .nothing, some 3, some 0, .next⟩,
    ⟨0xA3, "ldelem", .type, some 2, some 1, .next⟩,
    ⟨0xA4, "stelem", .type, some 3, some 0, .next⟩,
    ⟨0xA5, "unbox.any", .type, some 1, some 1, .next⟩,
    ⟨0xB3, "conv.ovf.i1", .nothing, some 1, some 1, .next⟩,
    ⟨0xB4, "conv.ovf.u1", .nothing, some 1, some 1, .next⟩,
    ⟨0xB5, "conv.ovf.i2", .nothing, some 1, some 1, .next⟩,
    ⟨0xB6, "conv.ovf.u2", .nothing, some 1, some 1, .next⟩,
    ⟨0xB7, "conv.ovf.i4", .nothing, some 1, some 1, .next⟩,
    ⟨0xB8, "conv.ovf.u4", .nothing, some 1, some 1, .next⟩,
    ⟨0xB9, "conv.ovf.i8", .nothing, some 1, some 1, .next⟩,
    ⟨0xBA, "conv.ovf.u8", .nothing, some 1, some 1, .next⟩,
    ⟨0xC2, "refanyval", .type, some 1, some 1, .next⟩,
    ⟨0xC3, "ckfinite", .nothing, some 1, some 1, .next⟩,
    ⟨0xC6, "mkrefany", .type, some 1, some 1, .next⟩,
    ⟨0xD0, "ldtoken", .member, some 0, some 1, .next⟩,
    ⟨0xD1, "conv.u2", .nothing, some 1, some 1, .next⟩,
    ⟨0xD2, "conv.u1", .nothing, some 1, some 1, .next⟩,
    ⟨0xD3, "conv.i", .nothing, some 1, some 1, .next⟩,
    ⟨0xD4, "conv.ovf.i", .nothing, some 1, some 1, .next⟩,
    ⟨0xD5, "conv.ovf.u", .nothing, some 1, some 1, .next⟩,
    ⟨0xD6, "add.ovf", .nothing, some 2, some 1, .next⟩,
    ⟨0xD7, "add.ovf.un", .nothing, some 2, some 1, .next⟩,
    ⟨0xD8, "mul.ovf", .nothing, some 2, some 1, .next⟩,
    ⟨0xD9, "mul.ovf.un", .nothing, some 2, some 1, .next⟩,
    ⟨0xDA, "sub.ovf", .nothing, some 2, some 1, .next⟩,
    ⟨0xDB, "sub.ovf.un", .nothing, some 2, some 1, .next⟩,
    ⟨0xDC, "endfinally", .nothing, some 0, some 0, .returns⟩,
    ⟨0xDD, "leave", .branch, some 0, some 0, .branch⟩,
    ⟨0xDE, "leave.s", .shortBranch, some 0, some 0, .branch⟩,
    ⟨0xDF, "stind.i", .nothing, some 2, some 0, .next⟩,
    ⟨0xE0, "conv.u", .nothing, some 1, some 1, .next⟩,
    ⟨0xFE00, "arglist", .nothing, some 0, some 1, .next⟩,
    ⟨0xFE01, "ceq", .nothing, some 2, some 1, .next⟩,
    ⟨0xFE02, "cgt", .nothing, some 2, some 1, .next⟩,
    ⟨0xFE03, "cgt.un", .nothing, some 2, some 1, .next⟩,
    ⟨0xFE04, "clt", .nothing, some 2, some 1, .next⟩,
    ⟨0xFE05, "clt.un", .nothing, some 2, some 1, .next⟩,
    ⟨0xFE06, "ldftn", .method, some 0, some 1, .next⟩,
    ⟨0xFE07, "ldvirtftn", .method, some 1, some 1, .next⟩,
    ⟨0xFE09, "ldarg", .longVariable, some 0, some 1, .next⟩,
    ⟨0xFE0A, "ldarga", .longVariable, some 0, some 1, .next⟩,
    ⟨0xFE0B, "starg", .longVariable, some 1, some 0, .next⟩,
    ⟨0xFE0C, "ldloc", .longVariable, some 0, some 1, .next⟩,
    ⟨0xFE0D, "ldloca", .longVariable, some 0, some 1, .next⟩,
    ⟨0xFE0E, "stloc", .longVariable, some 1, some 0, .next⟩,
    ⟨0xFE0F, "localloc", .nothing, some 1, some 1, .next⟩,
    ⟨0xFE11, "endfilter", .nothing, some 1, some 0, .returns⟩,
    ⟨0xFE12, "unaligned.", .shortInteger, some 0, some 0, .modifier⟩,
    ⟨0xFE13, "volatile.", .nothing, some 0, some 0, .modifier⟩,
    ⟨0xFE14, "tail.", .nothing, some 0, some 0, .modifier⟩,
    ⟨0xFE15, "initobj", .type, some 1, some 0, .next⟩,
    ⟨0xFE16, "constrained.", .type, some 0, some 0, .modifier⟩,
    ⟨0xFE17, "cpblk", .nothing, some 3, some 0, .next⟩,
    ⟨0xFE18, "initblk", .nothing, some 3, some 0, .next⟩,
    ⟨0xFE19, "no.", .shortInteger, some 0, some 0, .modifier⟩,
    ⟨0xFE1A, "rethrow", .nothing, some 0, some 0, .throws⟩,
    ⟨0xFE1C, "sizeof", .type, some 0, some 1, .next⟩,
    ⟨0xFE1D, "refanytype", .nothing, some 1, some 1, .next⟩,
    ⟨0xFE1E, "readonly.", .nothing, some 0, some 0, .modifier⟩ ]

/-- The opcode of a value. -/
def ofValue? (value : Int) : Option Opcode := all.find? fun op => (op.value : Int) = value

/-- The opcode of a value, which has to be defined. -/
def ofValue (value : Int) : Except Fault Opcode :=
  match ofValue? value with
  | some op => .ok op
  | none => .error (.unknownOpcode value)

/-- The opcode of a mnemonic, which has to be defined. -/
def ofName (name : String) : Except Fault Opcode :=
  match all.find? fun op => op.mnemonic = name with
  | some op => .ok op
  | none => .error (.invalidArguments (some "opcode mnemonic") (some name))

/-- The opcode of an identifier. -/
def ofIdentifier? (name : String) : Option Opcode := all.find? fun op => op.identifier = name

/-- The value of the long form of a short branch. -/
def longValue? (value : Nat) : Option Nat :=
  if 0x2B ≤ value && value < 0x38 then some (value + 0x0D)
  else if value = 0xDE then some 0xDD
  else none

/-- The long form of a short branch; no other opcode has one. -/
def longForm (op : Opcode) : Except Fault Opcode :=
  match longValue? op.value with
  | some value => ofValue value
  | none => .error .missingKey

/-- The same branch with a displacement of four bytes. -/
def widened (op : Opcode) : Opcode :=
  match longForm op with
  | .ok long => long
  | .error _ => op

/-- The opcode that does nothing. -/
def nop : Opcode := ⟨0x00, "nop", .nothing, some 0, some 0, .next⟩

/-- Creates an object: what it leaves does not depend on the signature. -/
def newobj : Nat := 0x73

/-- Calls through a pointer, which lies on the stack above the arguments. -/
def calli : Nat := 0x29

/-- Leaves a protected block, which empties the stack. -/
def isLeave (op : Opcode) : Bool := op.value == 0xDD || op.value == 0xDE

/-- Loads a signed number of one byte; the other operands of that size are flags. -/
def loadSignedByte : Nat := 0x1F

end CilRestore.Opcode
