import CilRestore.Address
import CilRestore.Module.Basic
import CilRestore.Restorer.Harvest
import CilRestore.Restorer.Result

/-!
# Restoring an entry

Putting one harvested body back: from its key to an RVA, from there to a method, and from the code
to instructions and a compiled body. Whatever stops it becomes the result of the entry, and then the
method keeps the body it had.
-/

namespace CilRestore.Module

/-- Compile decoded code behind the header of a method and install it. -/
def installDecoded (rid : Nat) (pool : Pool) : Action Module (Except Fault Unit) := do
  let b ← body rid
  let (compiled, pool) ← Action.onOwn pool (recompile b.stub)
  match compiled with
  | .ok bytes => do
    installCode rid pool (some bytes)
    return .ok ()
  | .error e => if e.isReported then return .error e else Action.fail e

/-- Put code back into a method. -/
def restoreMethod (address : RuntimeAddress) (blob : Bytes) (rid : Nat) :
    Action Module RestoreResult := do
  let m ← Action.read
  let result : RestoreResult :=
    { key := address.key, rva := address.rva, status := .decodeError
      method := some (m.rows.methodName rid) }
  if blob.isEmpty then return { result with message := "empty body" }
  match m.decodeFor (some rid) blob with
  | .error e => return { result with message := e.message }
  | .ok pool =>
    match ← installDecoded rid pool with
    | .error e => return { result with message := e.message }
    | .ok () => return { result with status := .restored }

/-- Put an entry back into the method it belongs to. The key 0 and an RVA below the module belong to
none, and an RVA of several methods to none of them. -/
def restoreEntry (index : MethodIndex) (base bias : Int) (entry : CacheEntry) :
    Action Module RestoreResult := do
  let m ← Action.read
  let address : RuntimeAddress := ⟨entry.key, base, bias⟩
  let result : RestoreResult := { key := entry.key, rva := address.rva, status := .notFound }
  if entry.isSentinel then return result
  if !address.isValid then return { result with message := "negative rva" }
  match index.resolve m.rows.resolve? address.rva with
  | .error (.ambiguousMethod rva rows) =>
    return { result with
      status := .ambiguous, message := (Fault.ambiguousMethod rva rows).message }
  | .error e => Action.fail e
  | .ok none => return result
  | .ok (some row) => restoreMethod address entry.blob row.rid

end CilRestore.Module
