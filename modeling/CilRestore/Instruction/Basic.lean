import CilRestore.Opcode.Table
import CilRestore.Signature
import CilRestore.Token

/-!
# Instructions

Instructions live in a pool and name each other by their place in it, so a branch keeps its target
while offsets move and opcodes change. A method body is an order over the pool; a target may also
stand outside of that order. Offsets and indexes are part of an instruction because what reads it
later sees where it was laid out last; both are -1 until then.
-/

namespace CilRestore

-- Powers of numbers are those of the core library, whatever else is imported.
attribute [local instance (high)] instPowNat

/-- What is known of the method behind an operand. -/
inductive Callee where
  /-- The signature of the method. -/
  | known (signature : MethodSignature)
  /-- Nothing: there is no method, or its signature cannot be read. -/
  | unknown
  /-- The method is named through itself, so looking for it does not end. -/
  | circular
  deriving DecidableEq, Repr

/-- A row of a module as an operand names it. -/
structure NamedRow where
  /-- The kind of row. -/
  kind : RowKind
  /-- The row, counted from 1. -/
  rid : Nat
  /-- The full name; a row that is named through itself has none. -/
  fullName : Option String
  /-- What a call through it does to the stack. -/
  callee : Callee
  deriving DecidableEq, Repr

/-- The number of the token that names a row. -/
def NamedRow.tokenValue (r : NamedRow) : Int := r.kind.table * 2 ^ (24 : Nat) + r.rid

/-- What an instruction works on. -/
inductive Operand where
  /-- Nothing. -/
  | nothing
  /-- A number or the number of a variable. -/
  | integer (value : Int)
  /-- A yes or no, which counts as 1 or 0. -/
  | flag (value : Bool)
  /-- The bits of a binary64 number. -/
  | real (bits : UInt64)
  /-- A user string with the token that names it. -/
  | text (token : Int) (value : String)
  /-- The instruction that a branch goes to. -/
  | target (id : Nat)
  /-- The instructions that a switch goes to. -/
  | targets (ids : List Nat)
  /-- A row of the module. -/
  | row (row : NamedRow)
  /-- A token of which no more is known than, perhaps, the signature behind it. -/
  | token (value : Int) (signature : Option MethodSignature)
  deriving DecidableEq, Repr

namespace Operand

/-- The one target of a branch. -/
def target? : Operand → Option Nat
  | target id => some id
  | _ => none

/-- The targets of a switch. -/
def targets? : Operand → Option (List Nat)
  | targets ids => some ids
  | _ => none

/-- The token that an operand names. -/
def tokenValue? : Operand → Option Int
  | .text name _ => some name
  | .row r => some r.tokenValue
  | .token name _ => some name
  | _ => none

/-- The method behind an operand. -/
def callee : Operand → Callee
  | row r => r.callee
  | token _ (some signature) => .known signature
  | _ => .unknown

end Operand

/-- An instruction of a pool. -/
structure Instruction where
  /-- The opcode. -/
  opcode : Opcode
  /-- What it works on. -/
  operand : Operand := .nothing
  /-- Where it was laid out last, -1 before. -/
  offset : Int := -1
  /-- Its place in the order it was put into last, -1 before. -/
  index : Int := -1
  deriving DecidableEq, Repr

namespace Instruction

/-- The bytes an instruction takes, the table of a switch counted by its targets. -/
def size (i : Instruction) : Nat :=
  if i.opcode.isSwitch then i.opcode.size + 4 + 4 * (i.operand.targets?.getD []).length
  else i.opcode.size + i.opcode.operand.size

/-- Whether a branch has an operand that is no instruction. -/
def isDangling (i : Instruction) : Bool := i.opcode.isBranch && i.operand.target?.isNone

/-- Whether a switch has an operand that is no list of instructions. -/
def lacksTable (i : Instruction) : Bool := i.opcode.isSwitch && i.operand.targets?.isNone

/-- The instructions that an instruction may go to, besides the next one. -/
def targets (i : Instruction) : List Nat :=
  if i.opcode.isBranch then i.operand.target?.toList
  else if i.opcode.isSwitch then i.operand.targets?.getD []
  else []

/-- The instructions that an instruction with a branch operand has to name. -/
def namedTargets (i : Instruction) : Except Fault (List Nat) :=
  if i.isDangling then .error .missingMember
  else if i.lacksTable then .error .wrongKind
  else .ok i.targets

/-- The stack slots that an instruction takes and leaves. Where the signature of the callee decides
and is unknown, it takes none and leaves one. -/
def stackEffect (i : Instruction) : Except Fault (Nat × Nat) :=
  match i.opcode.pops, i.opcode.pushes with
  | some pops, some pushes => .ok (pops, pushes)
  | _, _ =>
    match i.operand.callee with
    | .circular => .error .endless
    | .unknown => .ok (0, 1)
    | .known s =>
      if i.opcode.value = Opcode.newobj then .ok (s.paramCount, 1)
      else if i.opcode.value = Opcode.calli then .ok (s.pops + 1, s.pushes)
      else .ok (s.pops, s.pushes)

end Instruction

/-- All instructions there are, by identity. -/
abbrev Pool := Array Instruction

namespace Pool

/-- An instruction by its identity; the identities beyond the pool name one that does nothing. -/
def fetch (p : Pool) (id : Nat) : Instruction := p.getD id ⟨.nop, .nothing, -1, -1⟩

/-- The identity of an instruction by its place among the first `count`; a place below zero counts
from the end. -/
def place (count : Nat) (place : Int) : Except Fault Nat :=
  let place := if place < 0 then place + count else place
  if 0 ≤ place ∧ place < count then .ok place.toNat else .error .badIndex

/-- The bytes an instruction takes, through at most `fuel` instructions. A switch with one
instruction in the place of its table has as many entries as that one has bytes. -/
def sizeWithin (p : Pool) : Nat → Instruction → Except Fault Nat
  | 0, _ => .error .endless
  | fuel + 1, i =>
    if i.lacksTable then
      match i.operand.target? with
      | some id => (fun entries => i.size + 4 * entries) <$> sizeWithin p fuel (p.fetch id)
      | none => .error .wrongKind
    else .ok i.size

/-- The bytes an instruction takes. A switch that counts itself has no size. -/
def sizeOf? (p : Pool) (i : Instruction) : Except Fault Nat := p.sizeWithin (p.size + 2) i

/-- The fault of an instruction that has no size. -/
def sizeFault? (p : Pool) (i : Instruction) : Option Fault :=
  match p.sizeOf? i with
  | .ok _ => none
  | .error e => some e

/-- The bytes an instruction takes, without entries where it has no size. -/
def sizeOf (p : Pool) (i : Instruction) : Nat :=
  match p.sizeOf? i with
  | .ok size => size
  | .error _ => i.size

/-- Only a switch without a table looks beyond itself for its size. -/
theorem sizeOf?_of_table {p : Pool} {i : Instruction} (h : i.lacksTable = false) :
    p.sizeOf? i = .ok i.size := by
  simp [sizeOf?, sizeWithin, h]

/-- Where no table is missing an instruction has the size that it states. -/
theorem sizeOf_of_table {p : Pool} {i : Instruction} (h : i.lacksTable = false) :
    p.sizeOf i = i.size := by
  simp [sizeOf, sizeOf?_of_table h]

/-- Replace an instruction. -/
def put (p : Pool) (id : Nat) (i : Instruction) : Pool := p.setIfInBounds id i

@[simp] theorem size_put (p : Pool) (id : Nat) (i : Instruction) : (p.put id i).size = p.size := by
  simp [put]

theorem fetch_put_self {p : Pool} {id : Nat} (h : id < p.size) (i : Instruction) :
    (p.put id i).fetch id = i := by
  simp [Pool.fetch, put, Array.getD_eq_getD_getElem?, h]

theorem fetch_put_of_ne {p : Pool} {id other : Nat} (h : other ≠ id) (i : Instruction) :
    (p.put id i).fetch other = p.fetch other := by
  simp [Pool.fetch, put, Array.getD_eq_getD_getElem?, Ne.symm h]

end Pool

end CilRestore
