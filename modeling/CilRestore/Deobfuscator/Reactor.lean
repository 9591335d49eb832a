import CilRestore.Deobfuscator.Basic
import CilRestore.Deobfuscator.Context
import CilRestore.Restorer.Workspace

/-!
# Bodies held back by a runtime cache

The protection that moves method bodies into a dictionary, to be handed to the compiler of the
runtime when a method is first called. Where the dictionary is differs from sample to sample and has
to be said; then the sample is loaded, the dictionary read, and its bodies put back.
-/

namespace CilRestore

/-- A host that was asked for. -/
structure HostRequest where
  /-- The file to load. -/
  path : String
  /-- The runtime to load it into, where it matters which. -/
  runtime : Option String
  deriving DecidableEq, Repr

/-- A module that deobfuscators work on. -/
structure Case where
  /-- The module with its surroundings. -/
  workspace : Workspace
  /-- What deobfuscators are told. -/
  context : Context := {}
  /-- The hosts that were asked for, oldest first. -/
  requests : List HostRequest := []

/-- Where a host comes from. -/
inductive HostChoice where
  /-- It was given, or what was given in its place. -/
  | given (item : Item)
  /-- It is made for the file of the module. -/
  | made (request : HostRequest)
  deriving Repr

/-- Whether a module can be loaded with a choice. -/
def HostChoice.isHost : HostChoice → Bool
  | given .host | made _ => true
  | given _ => false

namespace Case

variable {α : Type}

/-- An action on the workspace. -/
def onWorkspace (x : Action Workspace α) : Action Case α :=
  Action.within Case.workspace (fun workspace c => { c with workspace }) x

/-- The item of a name, which has to be there. -/
def item (name : String) : Action Case Item := do
  Action.ofExcept ((← Action.read).context.get name)

/-- Leave an item behind. -/
def leave (name : String) (value : Item) : Action Case Unit :=
  Action.update fun c => { c with context := c.context.set name value }

/-- Leave the host behind, or nothing where there is none. -/
def leaveHost : Action Case Unit := do
  leave Context.host (if (← Action.read).workspace.host.isSome then .host else .nothing)

/-- Choose the host: the one that was given, or else one for the file that the module was read
from. -/
def chooseHost : Action Case HostChoice := do
  let c ← Action.read
  match c.context.find? Context.host, c.workspace.module_.path with
  | some item, _ => return .given item
  | none, none => Action.fail (.invalidArguments (some "a module read from a file") none)
  | none, some path =>
    let request : HostRequest := ⟨path, (c.context.find? Context.runtime).bind Item.said?⟩
    Action.update fun c => { c with requests := c.requests ++ [request] }
    return .made request

/-- Put the bodies of the cache back into the module. The results are left behind for the caller;
nothing is written. -/
def restoreBodies : Action Case (List RestoreResult) := do
  let choice ← chooseHost
  let typeName ← item Context.typeName
  let fieldName ← item Context.fieldName
  let bias := (← Action.read).context.getOrElse Context.bias (.integer defaultBias)
  if !choice.isHost then Action.fail .wrongKind
  let restorer : Restorer := { typeName, fieldName, bias }
  let results ← onWorkspace (Workspace.restoreBodies restorer)
  leave Context.results (.results results)
  return results

/-- The lines that the results left behind show. -/
def resultLines : Action Case (List String) := do
  Action.ofExcept (← item Context.results).lines

end Case

/-- The deobfuscator for bodies held back by a runtime cache. -/
def reactor : Deobfuscator Case where
  name := "DotNetReactor"
  identifyUnpack := pure false
  identifyDeobfuscate := do
    let ctx := (← Action.read).context
    return ctx.has Context.typeName && ctx.has Context.fieldName
  unpack := .fail .unsupported
  deobfuscate := do return (← Case.restoreBodies).any RestoreResult.isRestored

/-- The deobfuscators there are. -/
def deobfuscators : List (Deobfuscator Case) := [reactor]

end CilRestore
