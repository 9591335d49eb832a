import CilRestore.Item

/-!
# What deobfuscators are told

The items that a caller hands to deobfuscators and that they leave behind, by name. A later item of
a name takes the place of an earlier one.
-/

namespace CilRestore

/-- Items by name. -/
structure Context where
  /-- The items, in the order in which their names came up. -/
  items : List (String × Item) := []
  deriving Repr

namespace Context

/-- The name of the item for the type that holds the cache. -/
def typeName : String := "CacheTypeName"

/-- The name of the item for the field that holds the cache. -/
def fieldName : String := "CacheFieldName"

/-- The name of the item for what separates a key from base plus RVA. -/
def bias : String := "RuntimeKeyBias"

/-- The name of the item for the runtime to load the module into. -/
def runtime : String := "ClrRuntime"

/-- The name of the item for a host that has the module already. -/
def host : String := "HostModule"

/-- The name of the item for the results of restoring. -/
def results : String := "RestoreResults"

/-- The item of a name. -/
def find? (ctx : Context) (name : String) : Option Item :=
  (ctx.items.find? fun entry => entry.1 = name).map (·.2)

/-- Whether there is an item of a name. -/
def has (ctx : Context) (name : String) : Bool := (ctx.find? name).isSome

/-- The item of a name, which has to be there. -/
def get (ctx : Context) (name : String) : Except Fault Item :=
  match ctx.find? name with
  | some item => .ok item
  | none => .error .missingKey

/-- The item of a name, or another one. -/
def getOrElse (ctx : Context) (name : String) (default : Item) : Item :=
  (ctx.find? name).getD default

/-- The context with an item, new or in the place of one. -/
def set (ctx : Context) (name : String) (item : Item) : Context :=
  if ctx.has name then
    ⟨ctx.items.map fun entry => if entry.1 = name then (name, item) else entry⟩
  else ⟨ctx.items ++ [(name, item)]⟩

end Context

end CilRestore
