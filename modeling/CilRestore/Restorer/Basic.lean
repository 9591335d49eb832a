import CilRestore.Restorer.Bias
import CilRestore.Restorer.Harvest
import CilRestore.Restorer.Result

/-!
# The restorer

A restorer takes a module through four stages, one after the other and each once: loaded, harvested,
restored, written. It reads the whole cache before it looks at any entry, and it looks at all
entries before anything is written. What it works with is given by its bench, a host and two actions
on a state that they share, so that nothing here depends on how either does its work.
-/

namespace CilRestore

/-- How far a restorer has come. -/
inductive Stage where
  /-- The module was read. -/
  | loaded
  /-- The cache was read. -/
  | harvested
  /-- The entries were put back. -/
  | restored
  /-- The module was written. -/
  | written
  deriving DecidableEq, Repr

/-- The name of a stage. -/
def Stage.name : Stage → String
  | loaded => "loaded"
  | harvested => "harvested"
  | restored => "restored"
  | written => "written"

/-- What a restorer works with. -/
structure Bench (σ : Type) where
  /-- The host that loads the module. -/
  host : Host σ
  /-- Put an entry back, given the base of the module and the bias of the keys. -/
  restoreEntry : Int → Int → CacheEntry → Action σ RestoreResult
  /-- Write the module to a path. -/
  write : String → Action σ Unit

/-- A restorer. -/
structure Restorer where
  /-- The type that holds the cache. -/
  typeName : Item
  /-- The field that holds the cache. -/
  fieldName : Item
  /-- What separates a key from base plus RVA. -/
  bias : Item
  /-- How far it has come. -/
  stage : Stage := .loaded
  /-- The entries of the cache. -/
  entries : List CacheEntry := []
  /-- The address that the module is loaded at. -/
  base : Int := 0
  /-- What became of the entries. -/
  results : List RestoreResult := []
  deriving Repr

namespace Restorer

variable {σ α : Type}

/-- An action of the bench. -/
def onBench (x : Action σ α) : Action (Restorer × σ) α :=
  Action.within Prod.snd (fun s both => (both.1, s)) x

/-- Change the restorer. -/
def change (f : Restorer → Restorer) : Action (Restorer × σ) Unit :=
  Action.update fun both => (f both.1, both.2)

/-- Break off unless the restorer has come exactly this far. -/
def require (stage : Stage) : Action (Restorer × σ) Unit := do
  if (← Action.read).1.stage ≠ stage then Action.fail .unsupported

/-- Read the cache and the base of the module while the host has it loaded. -/
def readHost (bench : Bench σ) : Action (Restorer × σ) Unit := do
  let r := (← Action.read).1
  let host : Host (Restorer × σ) :=
    { load := onBench bench.host.load
      close := onBench bench.host.close
      base := onBench bench.host.base
      cache := fun typeName fieldName => onBench (bench.host.cache typeName fieldName) }
  Host.during host do
    let entries ← CacheEntry.harvest host r.typeName r.fieldName
    change fun r => { r with entries }
    let base ← host.base
    change fun r => { r with base }

/-- Read the whole cache. -/
def harvest (bench : Bench σ) : Action (Restorer × σ) (List CacheEntry) := do
  require .loaded
  readHost bench
  let r := (← Action.read).1
  Action.say ("module base " ++ Text.hex r.base)
  change fun r => { r with stage := .harvested }
  return r.entries

/-- Put entries back, one after the other. That the bias is a number is first needed for an entry,
and that it is a whole one for the result of an entry. -/
def restoreAll (bench : Bench σ) (base : Int) (bias : Item) :
    List CacheEntry → Action (Restorer × σ) Unit
  | [] => pure ()
  | entry :: rest => do
    match ← Action.ofExcept (bias.biasAt (entry.key - base)) with
    | none => Action.fail .wrongKind
    | some whole => do
      let result ← onBench (bench.restoreEntry base whole entry)
      if bias.isReal then Action.fail .wrongKind
      Action.say result.line
      change fun r => { r with results := r.results ++ [result] }
      restoreAll bench base bias rest

/-- Put all entries back: one result for each, in their order. -/
def restore (bench : Bench σ) : Action (Restorer × σ) (List RestoreResult) := do
  require .harvested
  change fun r => { r with results := [] }
  let r := (← Action.read).1
  restoreAll bench r.base r.bias r.entries
  let results := (← Action.read).1.results
  let restored := results.countP RestoreResult.isRestored
  Action.say ("restored " ++ toString restored ++ " of " ++ toString results.length ++
    " cache entries")
  change fun r => { r with stage := .restored }
  return results

/-- Write the module. -/
def write (bench : Bench σ) (path : String) : Action (Restorer × σ) Unit := do
  require .restored
  onBench (bench.write path)
  Action.say ("wrote " ++ path)
  change fun r => { r with stage := .written }

/-- Harvest, restore and write. -/
def run (bench : Bench σ) (path : String) : Action (Restorer × σ) (List RestoreResult) := do
  let _ ← harvest bench
  let results ← restore bench
  write bench path
  return results

end Restorer

end CilRestore
