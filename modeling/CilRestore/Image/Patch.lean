import CilRestore.Action
import CilRestore.Body.Serialize
import CilRestore.Image.Grow

/-!
# Patching bodies into a file

A compiled body goes over its stub where it fits: where it is not longer, and a fat header keeps its
alignment. The other bodies are put one behind the other, each at a multiple of four, into space
that the file grows by, and the rows of their methods are pointed there.
-/

namespace CilRestore

/-- A compiled body and the stub it replaces. -/
structure BodyPatch where
  /-- The row of the method, counted from 1. -/
  rid : Nat
  /-- The RVA of the stub, 0 for none. -/
  rva : Int
  /-- The bytes of the stub in the file, 0 for none. -/
  stubSize : Nat
  /-- The compiled body. -/
  compiled : Bytes
  deriving DecidableEq, Repr

namespace BodyPatch

/-- Whether a body can go over its stub. An empty body has no header to look at. -/
def fits (stubSize : Nat) (rva : Int) (compiled : Bytes) : Except Fault Bool :=
  if rva = 0 || stubSize = 0 then .ok false
  else if stubSize < compiled.length then .ok false
  else
    match compiled with
    | [] => .error .badIndex
    | first :: _ =>
      .ok !(first.toNat % 4 = BodyFormat.fat && Int.fmod rva 4 ≠ 0)

/-- The file offset at which a body goes over its stub; none when it has to go elsewhere. -/
def place? (sections : List Section) (b : BodyPatch) : Except Fault (Option Nat) := do
  if ← fits b.stubSize b.rva b.compiled then return Section.offsetOf? sections b.rva
  else return none

/-- Write a body over its stub and zeros over the rest of the stub. -/
def overwrite (file : Bytes) (offset : Nat) (b : BodyPatch) : Bytes :=
  let file := Bytes.splice file offset (offset + b.compiled.length) b.compiled
  Bytes.splice file (offset + b.compiled.length) (offset + b.stubSize)
    (Bytes.zeros (b.stubSize - b.compiled.length))

/-- Write the bodies that fit; the answer is the file and the other bodies. -/
def overwriteAll (sections : List Section) : List BodyPatch → Bytes → List BodyPatch →
    Except Fault (Bytes × List BodyPatch)
  | [], file, moved => .ok (file, moved.reverse)
  | b :: rest, file, moved =>
    match place? sections b with
    | .error e => .error e
    | .ok (some offset) => overwriteAll sections rest (overwrite file offset b) moved
    | .ok none => overwriteAll sections rest file (b :: moved)

/-- Put a body behind those that were put so far, which stand last first, at the next multiple of
four. -/
def gatherNext (done : Bytes × List (BodyPatch × Nat)) (b : BodyPatch) :
    Bytes × List (BodyPatch × Nat) :=
  let blob := Bytes.padTo done.1 (Bytes.alignNat done.1.length 4)
  (blob ++ b.compiled, (b, blob.length) :: done.2)

/-- Put bodies one behind the other, each at a multiple of four: the bytes, and each body with where
it stands in them. -/
def gather (bodies : List BodyPatch) : Bytes × List (BodyPatch × Nat) :=
  let done := bodies.foldl gatherNext ([], [])
  (done.1, done.2.reverse)

/-- Point the rows of moved bodies at them. `cell` is the file offset of the RVA of a row, counted
from 0; an offset below zero counts from the end of the file. -/
def repoint (cell : Int → Except Fault Int) (base : Nat) :
    List (BodyPatch × Nat) → Bytes → Except Fault Bytes
  | [], file => .ok file
  | (b, place) :: rest, file => do
    let offset ← cell ((b.rid : Int) - 1)
    let rva ← fitting (Bytes.unsigned? 4 (base + place))
    repoint cell base rest (Bytes.replaceBetween file offset (offset + 4) rva)

/-- The line printed when the last section is extended. -/
def growingLine : String :=
  "no room for a new section header, growing the last section instead"

/-- Put bodies into space that the file grows by. -/
def relocate {σ : Type} (cell : Int → Except Fault Int) (file : Bytes) (bodies : List BodyPatch) :
    Action σ Bytes := do
  let (blob, places) := gather bodies
  let (h, sections) ← Action.ofExcept (Section.readAll file)
  let grown ←
    if Grown.canAddSection file h sections then
      Action.ofExcept (Grown.appendSection file h sections blob)
    else do
      Action.say growingLine
      Action.ofExcept (Grown.extendLast file h sections blob)
  Action.ofExcept (repoint cell grown.rva places grown.data)

/-- A row that the layout of the file does not have makes rebuilding fail. -/
def asReconstruction : Fault → Fault
  | .invalidArguments expected actual =>
    .reconstruction (Fault.invalidArguments expected actual).message
  | e => e

/-- Write bodies into a file. -/
def apply {σ : Type} (cell : Int → Except Fault Int) (file : Bytes) (bodies : List BodyPatch) :
    Action σ Bytes := do
  let (_, sections) ← Action.ofExcept (Section.readAll file)
  let (file, moved) ← Action.ofExcept (overwriteAll sections bodies file [])
  if moved.isEmpty then return file
  match ← Action.attempt (relocate cell file moved) with
  | .ok file => return file
  | .error e => Action.fail (asReconstruction e)

end BodyPatch

end CilRestore
