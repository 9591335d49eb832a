import CilRestore.Body.Stub

/-!
# Method bodies

A body is the stub it was read from, together with the instructions that are to replace the code of
the stub. The bytes of a compiled body are kept until the list of instructions changes; changing an
instruction in place does not drop them.
-/

namespace CilRestore

/-- A method body whose instructions can be replaced. -/
structure MethodBody where
  /-- The body in the file. -/
  stub : Stub := {}
  /-- The instructions that the body and others may hold. -/
  pool : Pool := #[]
  /-- The instructions that the body holds, in order. -/
  order : List Nat := []
  /-- Whether the list of instructions was ever changed. -/
  isModified : Bool := false
  /-- The bytes that the body compiles to, where they are known. -/
  compiled : Option Bytes := none

namespace MethodBody

/-- What the header says besides the code. -/
def header (b : MethodBody) : BodyHeader := ⟨b.stub.locals, b.stub.initLocals⟩

/-- The body without instructions. -/
def clear (b : MethodBody) : MethodBody :=
  { b with order := [], isModified := true, compiled := none }

/-- The body with an instruction of the pool put last. -/
def append (b : MethodBody) (id : Nat) : MethodBody :=
  { b with
    pool := b.pool.put id { b.pool.fetch id with index := b.order.length }
    order := b.order ++ [id]
    isModified := true
    compiled := none }

/-- The body with other instructions of the pool; `compiled` are their bytes, where known. -/
def install (b : MethodBody) (ids : List Nat) (compiled : Option Bytes) : MethodBody :=
  let installed := ids.foldl append b.clear
  match compiled with
  | some bytes => { installed with compiled := some bytes }
  | none => installed

/-- The body with the instructions of another pool, all of them, in their order. -/
def replace (b : MethodBody) (pool : Pool) (compiled : Option Bytes) : MethodBody :=
  { b with
    pool := pool.mapIdx fun place i => { i with index := place }
    order := List.range pool.size
    isModified := true
    compiled }

/-- The instruction at a place; one below zero counts from the end. -/
def instructionAt (b : MethodBody) (place : Int) : Except Fault Instruction :=
  (fun place => b.pool.fetch (b.order.getD place 0)) <$> Pool.place b.order.length place

/-- Change an instruction of the pool in place. -/
def modify (b : MethodBody) (id : Nat) (change : Instruction → Instruction) : MethodBody :=
  { b with pool := b.pool.put id (change (b.pool.fetch id)) }

/-- The names of the instructions. -/
def mnemonics (b : MethodBody) : List String :=
  b.order.map fun id => (b.pool.fetch id).opcode.mnemonic

/-- Serialize the instructions of a body after laying them out. -/
def serializeNow : Action MethodBody Bytes := do
  let b ← Action.read
  let layout ← Action.within MethodBody.pool (fun pool b => { b with pool })
    (layOut b.order b.stub.clauses)
  let b ← Action.read
  Action.ofExcept (serialize b.pool b.order b.header layout)

/-- The bytes of a body, made anew only when they are not known. -/
def compile : Action MethodBody Bytes := do
  let b ← Action.read
  match b.compiled with
  | some bytes => return bytes
  | none =>
    let bytes ← serializeNow
    Action.update fun b => { b with compiled := some bytes }
    return bytes

end MethodBody

/-- The bytes of a pool of decoded instructions behind the header and clauses of a stub. -/
def recompile (stub : Stub) : Action Pool Bytes := do
  let p ← Action.read
  let order := List.range p.size
  let layout ← layOut order stub.clauses
  let p ← Action.read
  Action.ofExcept (serialize p order ⟨stub.locals, stub.initLocals⟩ layout)

end CilRestore
