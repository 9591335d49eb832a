import CilRestore.Host.Basic
import CilRestore.Path

/-!
# A runtime as a host

Loading a module into a runtime and reading a static dictionary out of it. The runtime is described
by what it would answer, and the requests made of it are recorded in order.
-/

namespace CilRestore

/-- An object in a runtime. -/
structure RuntimeObject where
  /-- The full name of its type. -/
  typeName : String
  /-- Its bytes, which a byte array has to have. -/
  bytes : Option Bytes := none
  /-- Its fields: the name, the full name of the type, and the bytes where the field is a byte array
  that is there. -/
  fields : List (String × String × Option Bytes) := []
  deriving DecidableEq, Repr

namespace RuntimeObject

/-- The full name of the type of byte arrays. -/
def byteArray : String := "System.Byte[]"

/-- The byte arrays in an object. A byte array is its own, without a name; a field that is empty
counts as no bytes; nothing has none. -/
def arrays : Option RuntimeObject → Except Fault (List (String × Option Bytes))
  | none => .ok []
  | some o =>
    if o.typeName = byteArray then
      match o.bytes with
      | some bytes => .ok [("", some bytes)]
      | none => .error .missingKey
    else .ok (o.fields.filterMap fun (name, typeName, bytes) =>
      if typeName = byteArray then some (name, some (bytes.getD [])) else none)

end RuntimeObject

/-- A static dictionary, or the lack of one. -/
abbrev RuntimeCache := Option (List (Int × Option RuntimeObject))

/-- What a runtime would answer. -/
structure RuntimeWorld where
  /-- The address that the module is loaded at. -/
  base : Int
  /-- The types of the module, each with its static fields. -/
  types : List (String × List (String × RuntimeCache))
  /-- Why the module cannot be loaded. -/
  loadError : Option String := none
  /-- Why its initializer fails. -/
  initError : Option String := none
  /-- Why the initializers of its types fail. -/
  typeInitError : Option String := none

/-- A request made of a runtime. -/
inductive RuntimeCall where
  /-- Start the runtime of this name. -/
  | start (name : String)
  /-- Load a file. -/
  | loadFile (path : String)
  /-- Run the initializer of the module. -/
  | initModule
  /-- Find a type. -/
  | findType (name : Item)
  /-- Find a static field, public or not. -/
  | findField (name : Item)
  /-- Run the initializer of a type. -/
  | initType (name : String)
  deriving Repr

/-- A module and the runtime that it is loaded into. -/
structure RuntimeHost where
  /-- The file of the module, as an absolute path. -/
  path : String
  /-- The runtime to start, where it matters which. -/
  runtime : Option String := none
  /-- Whether the initializer of the module is run. -/
  runsInit : Bool := true
  /-- The runtime. -/
  world : RuntimeWorld
  /-- Whether the module is loaded. -/
  isLoaded : Bool := false
  /-- The requests made of the runtime, oldest first. -/
  calls : List RuntimeCall := []

namespace RuntimeHost

/-- Make a request. -/
def request (call : RuntimeCall) : Action RuntimeHost Unit :=
  Action.update fun r => { r with calls := r.calls ++ [call] }

/-- Go on unless the runtime fails with a text. -/
def unlessFailed (path : String) : Option String → Action RuntimeHost Unit
  | some reason => Action.fail (.hostLoad path reason)
  | none => pure ()

/-- Load the module, unless it is loaded. -/
def load : Action RuntimeHost Unit := do
  let r ← Action.read
  if r.isLoaded then return ()
  match r.runtime with
  | some name => request (.start name)
  | none => pure ()
  request (.loadFile r.path)
  unlessFailed r.path r.world.loadError
  if r.runsInit then
    request .initModule
    unlessFailed r.path r.world.initError
  Action.update fun r => { r with isLoaded := true }
  Action.say ("loaded " ++ r.path ++ " into the host runtime")

/-- Break off unless the module is loaded. -/
def requireLoaded : Action RuntimeHost Unit := do
  if !(← Action.read).isLoaded then Action.fail .unsupported

/-- The entries of a static dictionary. The type is initialized first, since that may fill it. -/
def cache (typeName fieldName : Item) : Action RuntimeHost (List CacheItem) := do
  requireLoaded
  let r ← Action.read
  request (.findType typeName)
  match r.world.types.find? fun entry => typeName.same (.text entry.1) with
  | none => Action.fail (.cacheTypeMissing typeName.shown)
  | some (found, fields) =>
    request (.findField fieldName)
    match fields.find? fun entry => fieldName.same (.text entry.1) with
    | none => Action.fail (.cacheFieldMissing typeName.shown fieldName.shown)
    | some (_, cache) =>
      request (.initType found)
      unlessFailed r.path r.world.typeInitError
      match cache with
      | none =>
        Action.say ("warning: " ++ typeName.shown ++ "." ++ fieldName.shown ++
          " is null, the cache was not populated")
        return []
      | some entries =>
        return entries.map fun (key, value) => ⟨key, RuntimeObject.arrays value⟩

/-- A module in a runtime as a host. It cannot be unloaded; letting go of it forgets it. -/
def host : Host RuntimeHost where
  load := load
  close := Action.update fun r => { r with isLoaded := false }
  base := do
    requireLoaded
    return (← Action.read).world.base
  cache := cache

end RuntimeHost

end CilRestore
