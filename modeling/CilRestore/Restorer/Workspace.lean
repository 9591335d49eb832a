import CilRestore.Directory
import CilRestore.Module.Open
import CilRestore.Restorer.Basic
import CilRestore.Restorer.Entry

/-!
# Workspaces

A module, the directory it is written to and the host it is loaded in, together. A workspace is what
a restorer works on: entries go into the bodies of the module, and the rebuilt module replaces a
file of the directory.
-/

namespace CilRestore

/-- A module with its surroundings. -/
structure Workspace where
  /-- The module. -/
  module_ : Module
  /-- The directory that paths refer to. -/
  directory : Directory := {}
  /-- The host that can load the module, if there is one. -/
  host : Option RecordedHost := none

namespace Workspace

variable {α : Type}

/-- An action on the module. -/
def onModule (x : Action Module α) : Action Workspace α :=
  Action.within Workspace.module_ (fun m w => { w with module_ := m }) x

/-- An action on the host, which has to be there. -/
def onHost (x : Action RecordedHost α) : Action Workspace α := do
  match (← Action.read).host with
  | none => Action.fail .wrongKind
  | some host => Action.within (fun _ => host) (fun host w => { w with host := some host }) x

/-- The host of the workspace as a host. -/
def sharedHost : Host Workspace where
  load := onHost RecordedHost.host.load
  close := onHost RecordedHost.host.close
  base := onHost RecordedHost.host.base
  cache typeName fieldName := onHost (RecordedHost.host.cache typeName fieldName)

/-- Write the rebuilt module over a file, or to a new one; `mishap` is what goes wrong on the way.
The bytes are complete before the directory is touched. -/
def writeStruck (mishap : Mishap) (path : GivenPath) : Action Workspace Ending := do
  let data ← onModule Module.rebuild
  let w ← Action.read
  let (ending, directory) := w.directory.replaceFile path data mishap
  Action.update fun w => { w with directory }
  return ending

/-- Write the rebuilt module over a file, or to a new one. Where nothing goes wrong on the way no
system error escapes (`Directory.replaceFile_quiet`). -/
def write (path : String) : Action Workspace Unit := do
  match ← writeStruck {} (.ofString path) with
  | .done | .escaped _ => return ()
  | .failed e => Action.fail e

/-- The index of the methods of the module. -/
def methodIndex (w : Workspace) : MethodIndex := .ofRows w.module_.rows.methodTable

/-- What a restorer works with in a workspace. -/
def bench (index : MethodIndex) : Bench Workspace where
  host := sharedHost
  restoreEntry base bias entry := onModule (Module.restoreEntry index base bias entry)
  write := write

/-- Run a step of a restorer on the workspace. -/
def withRestorer (step : Bench Workspace → Action (Restorer × Workspace) α) :
    Action (Restorer × Workspace) α := do
  let w := (← Action.read).2
  step (bench w.methodIndex)

/-- Work with a restorer that is not used afterwards. -/
def withFresh (r : Restorer) (step : Bench Workspace → Action (Restorer × Workspace) α) :
    Action Workspace α :=
  Action.within (fun w => (r, w)) (fun both _ => both.2) (withRestorer step)

/-- Harvest and restore. -/
def restoreBodies (r : Restorer) : Action Workspace (List RestoreResult) :=
  withFresh r fun bench => do
    let _ ← Restorer.harvest bench
    Restorer.restore bench

/-- Harvest, restore and write. -/
def runRestorer (r : Restorer) (path : String) : Action Workspace Unit := do
  let _ ← withFresh r fun bench => Restorer.run bench path

/-- Read a module from a file of a directory. -/
def openModule (directory : Directory) (path : Option String) : Except Fault Module :=
  match path with
  | none => .error (.invalidArguments (some "file_path or pe_data") none)
  | some path => do
    let data ← directory.read (.ofString path)
    Module.ofBytes data (some path)

end Workspace

end CilRestore
