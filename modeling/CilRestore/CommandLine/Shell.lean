import CilRestore.Deobfuscator.Reactor
import CilRestore.Text.Integer

/-!
# Commands

What the commands work on, and how they end. A command answers its exit code. A fault that the
library reports on its own terms is printed and ends the command with 1; any other one is not the
command's to handle.
-/

namespace CilRestore

/-- What a command works on. -/
structure Shell where
  /-- The directory that paths refer to. -/
  directory : Directory := {}
  /-- The host that is made for a file, if one can be made. -/
  host : Option RecordedHost := none
  /-- The hosts that were asked for, oldest first. -/
  requests : List HostRequest := []

namespace Shell

variable {α : Type}

/-- The state of a case that starts with a module. -/
def start (m : Module) (context : Context) (shell : Shell) : Case :=
  { workspace := { module_ := m, directory := shell.directory, host := shell.host }
    context := context
    requests := shell.requests }

/-- What a case leaves of the shell. -/
def finish (c : Case) : Shell :=
  { directory := c.workspace.directory, host := c.workspace.host, requests := c.requests }

/-- An action on a module, with what deobfuscators are told. -/
def onCase (m : Module) (context : Context) (x : Action Case α) : Action Shell α :=
  Action.within (start m context) (fun c _ => finish c) x

/-- Read a module from a file. -/
def openModule (path : String) : Action Shell Module := do
  Action.ofExcept (Workspace.openModule (← Action.read).directory (some path))

/-- The exit code of a command that is not finished yet: an action answers a code to end at once. A
reported fault is printed. -/
def guarded (x : Action Shell (Option Nat)) : Action Shell Nat := do
  match ← Action.attempt x with
  | .ok (some code) => return code
  | .ok none =>
    Action.say "Done"
    return 0
  | .error e =>
    if e.isReported then
      Action.say ("error: " ++ e.message)
      return 1
    Action.fail e

end Shell

/-- What deobfuscators are told on the command line: the type and the field of the cache, the
runtime and the bias of the keys. -/
def Context.ofArguments (args : List String) : Except Fault Context := do
  let named := [Context.typeName, Context.fieldName, Context.runtime].zip args
  let ctx : Context := ⟨named.map fun entry => (entry.1, .text entry.2)⟩
  match args[3]? with
  | none => return ctx
  | some literal =>
    match Text.integer? literal with
    | some bias => return ctx.set Context.bias (.integer bias)
    | none => throw .badValue

end CilRestore
