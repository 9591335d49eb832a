import CilRestore.Action
import CilRestore.Body.Clause
import CilRestore.Instruction.Basic

/-!
# Layout

Laying an order out gives its instructions consecutive offsets from 0 and widens every short branch
whose target lies too far away. Widening moves what follows, so it repeats until all short branches
reach; each further pass widens one at least, so as many passes as there are short branches suffice.
Clauses are carried over by their boundaries: a boundary that was the start of an instruction, or
the end of the last one, is that again; a clause with any other boundary is dropped.
-/

namespace CilRestore

-- Sums of numbers are those of the core library, whatever else is imported.
attribute [local instance (high)] Zero.ofOfNat0

namespace Pool

/-- Give the instructions of an order their offsets and indexes; the answer is the end. -/
def assignFrom : List Nat → Nat → Nat → Pool → Pool × Nat
  | [], _, offset, p => (p, offset)
  | id :: rest, index, offset, p =>
    let i := p.fetch id
    assignFrom rest (index + 1) (offset + p.sizeOf i) (p.put id { i with offset, index })

/-- Give the instructions of an order their offsets and indexes, from 0 on. -/
def assign (p : Pool) (order : List Nat) : Pool × Nat := assignFrom order 0 0 p

/-- Whether a displacement fits one byte. -/
def reaches (displacement : Int) : Bool := -128 ≤ displacement && displacement ≤ 127

/-- Whether a short branch cannot reach its target from where it is. -/
def isFar (p : Pool) (id : Nat) : Bool :=
  let i := p.fetch id
  i.opcode.isShortBranch &&
    match i.operand.target? with
    | some target => !reaches ((p.fetch target).offset - (i.offset + i.size))
    | none => false

/-- Widen every short branch of an order that cannot reach its target. -/
def widenFar (p : Pool) (order : List Nat) : Pool :=
  order.foldl (fun p id =>
    if p.isFar id then
      let i := p.fetch id
      p.put id { i with opcode := i.opcode.widened }
    else p) p

/-- Assign offsets and widen until every short branch reaches, at most `fuel` times. -/
def settle : Nat → List Nat → Pool → Pool × Nat
  | 0, order, p => p.assign order
  | fuel + 1, order, p =>
    let (p, size) := p.assign order
    if order.any p.isFar then settle fuel order (p.widenFar order) else (p, size)

/-- The short branches of an order. -/
def shortBranches (p : Pool) (order : List Nat) : Nat :=
  order.countP fun id => (p.fetch id).opcode.isShortBranch

end Pool

/-- Where an order was before it was laid out. -/
structure FormerPlaces where
  /-- The offsets of the instructions. -/
  offsets : List Int
  /-- The offset behind the last one, -1 when that had none. -/
  stop : Int

namespace FormerPlaces

/-- Where the instructions of an order are now. -/
def ofOrder (p : Pool) (order : List Nat) : FormerPlaces where
  offsets := order.map fun id => (p.fetch id).offset
  stop :=
    match order.getLast? with
    | none => -1
    | some id =>
      let i := p.fetch id
      if 0 ≤ i.offset then i.offset + p.sizeOf i else -1

/-- The new offset of a former boundary; of several instructions that shared an offset the last one
counts. -/
def carry? (former : FormerPlaces) (moved : List (Int × Int)) (size : Nat) (old : Int) :
    Option Int :=
  if old = former.stop then some size
  else if old < 0 then none
  else (moved.reverse.find? fun pair => pair.1 = old).map (·.2)

end FormerPlaces

/-- A clause with its boundaries carried over. -/
def Clause.carry? (carry : Int → Option Int) (c : Clause) : Option Clause := do
  let tryStart ← carry c.tryOffset
  let tryStop ← carry (c.tryOffset + c.tryLength)
  let handlerStart ← carry c.handlerOffset
  let handlerStop ← carry (c.handlerOffset + c.handlerLength)
  let token ← if c.flags = Clause.filter then carry c.token else some c.token
  return ⟨c.flags, tryStart, tryStop - tryStart, handlerStart, handlerStop - handlerStart, token⟩

/-- An order that has been laid out. -/
structure Layout where
  /-- The bytes of all instructions. -/
  codeSize : Nat
  /-- The clauses that could be carried over. -/
  clauses : List Clause
  /-- The clauses that could not. -/
  dropped : List Clause
  deriving DecidableEq, Repr

/-- Carry clauses over to the new places of an order. -/
def Layout.ofClauses (former : FormerPlaces) (p : Pool) (order : List Nat) (codeSize : Nat)
    (clauses : List Clause) : Layout :=
  let moved := former.offsets.zip (order.map fun id => (p.fetch id).offset)
  let carry := former.carry? moved codeSize
  { codeSize
    clauses := clauses.filterMap (Clause.carry? carry)
    dropped := clauses.filter fun c => (c.carry? carry).isNone }

/-- The fault that breaks the first pass over an order off, and the instructions before it, which
have their places by then. The size of the last instruction is asked for before all others when it
has an offset. -/
def Pool.breaksOff? (p : Pool) (order : List Nat) : Option (Fault × List Nat) :=
  let fault? (id : Nat) : Option Fault := p.sizeFault? (p.fetch id)
  let early? := order.getLast?.bind fun id =>
    if 0 ≤ (p.fetch id).offset then fault? id else none
  match early? with
  | some e => some (e, [])
  | none =>
    (order.zipIdx.findSome? fun (id, place) =>
      (fault? id).map fun e => (e, order.take (place + 1)))

/-- Lay an order out. An instruction without a size breaks the first pass off where it stands; a
short branch without a target does so after what stands before it was widened. -/
def layOut (order : List Nat) (clauses : List Clause) : Action Pool Layout := do
  let p ← Action.read
  match p.breaksOff? order with
  | some (e, placed) => do
    Action.update fun p => (p.assign placed).1
    Action.fail e
  | none => pure ()
  let former := FormerPlaces.ofOrder p order
  let broken? := order.findIdx? fun id =>
    (p.fetch id).opcode.isShortBranch && (p.fetch id).isDangling
  match broken? with
  | some place =>
    Action.update fun p => (p.assign order).1.widenFar (order.take place)
    Action.fail .missingMember
  | none =>
    Action.update fun p => (p.settle (p.shortBranches order) order).1
    let p ← Action.read
    let codeSize := (order.map fun id => p.sizeOf (p.fetch id)).sum
    let layout := Layout.ofClauses former p order codeSize clauses
    Action.sayAll (layout.dropped.map Clause.droppedLine)
    return layout

end CilRestore
