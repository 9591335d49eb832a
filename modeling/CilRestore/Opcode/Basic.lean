import CilRestore.Bytes.Basic
import CilRestore.Fault

/-!
# Opcodes

What is known of an opcode: its bytes, the kind of its operand, what it does to the evaluation
stack and where control goes after it. A two-byte opcode has a value from 0xFE00 on, its bytes in
reading order.
-/

namespace CilRestore

/-- What follows an opcode in the code. -/
inductive OperandKind where
  /-- No operand. -/
  | nothing
  /-- The number of a variable in one byte. -/
  | shortVariable
  /-- The number of a variable in two bytes. -/
  | longVariable
  /-- A number in one byte. -/
  | shortInteger
  /-- A number in four bytes. -/
  | integer
  /-- A number in eight bytes. -/
  | longInteger
  /-- A binary32 number. -/
  | shortReal
  /-- A binary64 number. -/
  | real
  /-- A displacement in one byte. -/
  | shortBranch
  /-- A displacement in four bytes. -/
  | branch
  /-- A count and as many displacements of four bytes. -/
  | switch
  /-- The token of a method. -/
  | method
  /-- The token of a field. -/
  | field
  /-- The token of a type. -/
  | type
  /-- The token of any member or type. -/
  | member
  /-- The token of a signature on its own. -/
  | signature
  /-- The token of a user string. -/
  | text
  deriving DecidableEq, Repr

namespace OperandKind

/-- The number of a kind. -/
def number : OperandKind → Nat
  | nothing => 0
  | shortVariable => 1
  | longVariable => 2
  | shortInteger => 3
  | integer => 4
  | longInteger => 5
  | shortReal => 6
  | real => 7
  | shortBranch => 8
  | branch => 9
  | switch => 10
  | method => 11
  | field => 12
  | type => 13
  | member => 14
  | signature => 15
  | text => 16

/-- The bytes an operand takes, where the kind alone fixes them: a switch table counts as none. -/
def size : OperandKind → Nat
  | nothing => 0
  | shortVariable => 1
  | longVariable => 2
  | shortInteger => 1
  | integer => 4
  | longInteger => 8
  | shortReal => 4
  | real => 8
  | shortBranch => 1
  | switch => 0
  | _ => 4

end OperandKind

/-- Where control goes after an instruction. -/
inductive Flow where
  /-- To the next instruction. -/
  | next
  /-- To the target. -/
  | branch
  /-- To a target or to the next instruction. -/
  | condBranch
  /-- Out of the method or the handler. -/
  | returns
  /-- To a handler. -/
  | throws
  /-- Into a method and back. -/
  | call
  /-- To the instruction it qualifies. -/
  | modifier
  /-- To a debugger and back. -/
  | breakpoint
  deriving DecidableEq, Repr

/-- The number of a kind of flow. -/
def Flow.number : Flow → Nat
  | next => 0
  | branch => 1
  | condBranch => 2
  | returns => 3
  | throws => 4
  | call => 5
  | modifier => 6
  | breakpoint => 7

/-- An opcode. -/
structure Opcode where
  /-- The one byte of the opcode, or the two bytes of it from 0xFE00 on. -/
  value : Nat
  /-- The name. -/
  mnemonic : String
  /-- What follows in the code. -/
  operand : OperandKind
  /-- The stack slots it takes; none when the signature of the callee decides. -/
  pops : Option Nat
  /-- The stack slots it leaves; none when the signature of the callee decides. -/
  pushes : Option Nat
  /-- Where control goes after it. -/
  flow : Flow
  deriving DecidableEq, Repr

namespace Opcode

/-- The byte that begins a two-byte opcode. -/
def extension : UInt8 := 0xFE

/-- The bytes of the opcode alone. -/
def size (op : Opcode) : Nat := if 0xFF < op.value then 2 else 1

/-- The bytes of the opcode alone, in reading order. -/
def bytes (op : Opcode) : Bytes :=
  if 0xFF < op.value then [UInt8.ofNat (op.value / 256), UInt8.ofNat op.value]
  else [UInt8.ofNat op.value]

/-- Whether the operand is one displacement. -/
def isBranch (op : Opcode) : Bool :=
  op.operand == .shortBranch || op.operand == .branch

/-- Whether the operand is a displacement of one byte. -/
def isShortBranch (op : Opcode) : Bool := op.operand == .shortBranch

/-- Whether the operand is a switch table. -/
def isSwitch (op : Opcode) : Bool := op.operand == .switch

/-- Whether control never reaches the next instruction from here. -/
def endsBlock (op : Opcode) : Bool :=
  op.flow == .branch || op.flow == .returns || op.flow == .throws

/-- An opcode as messages show it. -/
def describe (op : Opcode) : String :=
  "OpcodeInfo(" ++ op.mnemonic ++ ", " ++ Text.hex op.value ++ ")"

/-- A part of a mnemonic with its first letter in upper case. -/
def capitalized (cs : List Char) : List Char :=
  match cs with
  | [] => []
  | c :: rest => c.toUpper :: rest

/-- The name of an opcode as an identifier: the parts of the mnemonic, capitalized, joined by
underscores. -/
def identifier (op : Opcode) : String :=
  let parts := (op.mnemonic.toList.splitOn '.').filter (· ≠ [])
  String.ofList (List.intercalate ['_'] (parts.map capitalized))

end Opcode

end CilRestore
