import CilRestore.Host.Basic
import CilRestore.Text.Hex

/-!
# Harvesting a cache

Reading the body cache of a loaded module: of each entry the key and the first byte array in its
value. An entry without a byte array yields no bytes, and one with several is reported. A byte array
that is missing where there is to be one breaks the reading off.
-/

namespace CilRestore

/-- A body in a cache. -/
structure CacheEntry where
  /-- The key. -/
  key : Int
  /-- The code. -/
  blob : Bytes
  deriving DecidableEq, Repr

namespace CacheEntry

/-- The key 0 belongs to no method. -/
def isSentinel (e : CacheEntry) : Bool := e.key = 0

/-- An entry as messages show it. -/
def describe (e : CacheEntry) : String :=
  "RuntimeCacheEntry(key=" ++ Text.hex e.key ++ ", blob=" ++ toString e.blob.length ++ " bytes)"

/-- The line printed for an entry without a byte array. -/
def noArrayLine (key : Int) : String :=
  "warning: cache entry " ++ Text.hex key ++ " has no byte[] field"

/-- The line printed for an entry with several byte arrays. -/
def severalArraysLine (key : Int) (names : List String) (used : String) : String :=
  "warning: cache entry " ++ Text.hex key ++ " has several byte[] fields (" ++
    ", ".intercalate names ++ "), using " ++ used

/-- The entry that a dictionary holds. -/
def ofItem {σ : Type} (item : CacheItem) : Action σ CacheEntry := do
  match ← Action.ofExcept item.arrays with
  | [] => do
    Action.say (noArrayLine item.key)
    return ⟨item.key, []⟩
  | (name, blob) :: rest => do
    if !rest.isEmpty then
      Action.say (severalArraysLine item.key (name :: rest.map (·.1)) name)
    match blob with
    | some blob => return ⟨item.key, blob⟩
    | none => Action.fail .wrongKind

/-- Read the entries of a cache in the order of the dictionary. -/
def harvest {σ : Type} (h : Host σ) (typeName fieldName : Item) :
    Action σ (List CacheEntry) := do
  let entries ← (← h.cache typeName fieldName).mapM ofItem
  Action.say ("harvested " ++ toString entries.length ++ " cache entries from " ++
    typeName.shown ++ "." ++ fieldName.shown)
  return entries

end CacheEntry

end CilRestore
