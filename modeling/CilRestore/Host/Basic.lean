import CilRestore.Action
import CilRestore.Bytes.Basic
import CilRestore.Item

/-!
# Hosts

A host has a protected module loaded in a runtime and can look at it by reflection: at the address
it is loaded at, and at the entries of a static dictionary, each with the byte arrays in its value.
`Host.during` keeps a module loaded for the time of an action and no longer.
-/

namespace CilRestore

/-- An entry of a dictionary in a loaded module. -/
structure CacheItem where
  /-- The key. -/
  key : Int
  /-- The fields of the value that hold byte arrays, in the order of their declaration, with the
  bytes where there are any; or why the value cannot be looked at. -/
  arrays : Except Fault (List (String × Option Bytes))
  deriving Repr

/-- What a host can do, by actions on a state that it shares with its users. -/
structure Host (σ : Type) where
  /-- Load the module. -/
  load : Action σ Unit
  /-- Let go of the module. -/
  close : Action σ Unit
  /-- The address that the module is loaded at. -/
  base : Action σ Int
  /-- The entries of a static dictionary, given by the names of its type and its field. -/
  cache : Item → Item → Action σ (List CacheItem)

namespace Host

/-- The host that only declares what hosts do. -/
def declared {σ : Type} : Host σ where
  load := .fail .notImplemented
  close := pure ()
  base := .fail .notImplemented
  cache _ _ := .fail .notImplemented

/-- Run an action while the module is loaded; it is let go of however the action ends. -/
def during {σ α : Type} (h : Host σ) (action : Action σ α) : Action σ α := do
  h.load
  Action.andFinally action h.close

end Host

/-- A host whose answers are known in advance, and how often it was used. -/
structure RecordedHost where
  /-- The file of the module. -/
  fileName : String := "sample"
  /-- The address that the module is loaded at. -/
  base : Int := 0
  /-- The type that holds the dictionary. -/
  typeName : Item := .text "T"
  /-- The field that holds the dictionary. -/
  fieldName : Item := .text "f"
  /-- The entries of the dictionary. -/
  items : List CacheItem := []
  /-- Why the module cannot be loaded, if it cannot. -/
  loadError : Option String := none
  /-- How often it was to be loaded. -/
  opened : Nat := 0
  /-- How often it was let go of. -/
  closed : Nat := 0
  deriving Repr

namespace RecordedHost

/-- A recorded host as a host. -/
def host : Host RecordedHost where
  load := do
    Action.update fun r => { r with opened := r.opened + 1 }
    let r ← Action.read
    match r.loadError with
    | some reason => Action.fail (.hostLoad r.fileName reason)
    | none => return ()
  close := Action.update fun r => { r with closed := r.closed + 1 }
  base := do return (← Action.read).base
  cache typeName fieldName := do
    let r ← Action.read
    if !typeName.same r.typeName then Action.fail (.cacheTypeMissing typeName.shown)
    else if !fieldName.same r.fieldName then
      Action.fail (.cacheFieldMissing typeName.shown fieldName.shown)
    else return r.items

end RecordedHost

end CilRestore
