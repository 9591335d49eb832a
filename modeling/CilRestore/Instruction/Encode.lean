import CilRestore.Binary.Format
import CilRestore.Instruction.Basic

/-!
# Instructions as bytes

An instruction is its opcode followed by its operand. Displacements count from the end of the
instruction and use the offsets that stand in the pool, so a method is laid out before it is
written. An operand that does not fit its bytes is refused, with one exception: a number in one
byte is cut to its low eight bits.
-/

namespace CilRestore

/-- Bytes, or the fault of a number that does not fit. -/
def fitting (bytes : Option Bytes) : Except Fault Bytes :=
  match bytes with
  | some bs => .ok bs
  | none => .error .overflow

namespace Operand

/-- The whole number of an operand, if it is one. -/
def number? : Operand → Option Int
  | integer value => some value
  | flag value => some (if value then 1 else 0)
  | _ => none

/-- The number of an operand that has to be one. -/
def number (operand : Operand) : Except Fault Int :=
  match operand.number? with
  | some value => .ok value
  | none => .error .wrongKind

/-- The binary64 bits of a numeric operand. A whole number is rounded; one that is too large has no
such form. -/
def realBits : Operand → Except Fault Nat
  | real bits => .ok bits.toNat
  | operand =>
    match operand.number?.bind Binary.double.ofInteger? with
    | some bits => .ok bits
    | none => .error .unencodable

/-- The fault of a number that is too large for binary32: a whole one has no such form, where one
with a binary exponent does not fit. -/
def tooLarge : Operand → Fault
  | real _ => .overflow
  | _ => .unencodable

/-- The binary32 bits of a numeric operand. -/
def singleBits (operand : Operand) : Except Fault Nat := do
  match Binary.double.convert? Binary.single (← operand.realBits) with
  | some bits => return bits
  | none => throw operand.tooLarge

/-- The token of an operand that has to name something. -/
def tokenValue (operand : Operand) : Except Fault Int :=
  match operand.tokenValue? with
  | some value => .ok value
  | none => .error .missingMember

end Operand

namespace Pool

/-- How far a target lies from the end of an instruction. -/
def displacement (p : Pool) (i : Instruction) (target : Nat) : Int :=
  (p.fetch target).offset - (i.offset + i.size)

/-- The bytes of a branch operand. -/
def encodeBranch (p : Pool) (i : Instruction) (width : Nat) : Except Fault Bytes :=
  match i.operand.target? with
  | none => .error .missingMember
  | some target => fitting (Bytes.signed? width (p.displacement i target))

/-- The bytes of a switch table. -/
def encodeTable (p : Pool) (i : Instruction) : Except Fault Bytes :=
  match i.operand.targets? with
  | none => p.sizeOf? i >>= fun _ => .error .wrongKind
  | some ids => do
    let count ← fitting (Bytes.unsigned? 4 ids.length)
    let entries ← ids.mapM fun id => fitting (Bytes.signed? 4 (p.displacement i id))
    return count ++ entries.flatten

/-- The bytes of an operand. -/
def encodeOperand (p : Pool) (i : Instruction) : Except Fault Bytes :=
  match i.opcode.operand with
  | .nothing => .ok []
  | .shortVariable => i.operand.number >>= fun n => fitting (Bytes.unsigned? 1 n)
  | .longVariable => i.operand.number >>= fun n => fitting (Bytes.unsigned? 2 n)
  | .shortInteger => (fun n => Bytes.ofNumber 1 (n % 256).toNat) <$> i.operand.number
  | .integer => i.operand.number >>= fun n => fitting (Bytes.signed? 4 n)
  | .longInteger => i.operand.number >>= fun n => fitting (Bytes.signed? 8 n)
  | .shortReal => Bytes.ofNumber 4 <$> i.operand.singleBits
  | .real => Bytes.ofNumber 8 <$> i.operand.realBits
  | .shortBranch => p.encodeBranch i 1
  | .branch => p.encodeBranch i 4
  | .switch => p.encodeTable i
  | _ => i.operand.tokenValue >>= fun token => fitting (Bytes.unsigned? 4 token)

/-- The bytes of an instruction. -/
def encode (p : Pool) (i : Instruction) : Except Fault Bytes :=
  (i.opcode.bytes ++ ·) <$> p.encodeOperand i

/-- The bytes of the instructions of an order, one behind the other. -/
def encodeAll (p : Pool) (order : List Nat) : Except Fault Bytes :=
  List.flatten <$> order.mapM fun id => p.encode (p.fetch id)

end Pool

end CilRestore
