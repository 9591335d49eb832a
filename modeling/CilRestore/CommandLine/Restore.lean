import CilRestore.CommandLine.Shell

/-!
# The command for a whole restoration

It loads a module, harvests its cache, restores its bodies and writes it.
-/

namespace CilRestore.Shell

/-- How the command is used. -/
def restoreUsage : List String :=
  ["Usage: net_restore.py <input file> <output file> <cache type> <cache field> [runtime]",
    "cache type: full name of the type holding the method body cache.",
    "cache field: name of the static dictionary field on that type.",
    "runtime: netfx, coreclr or mono.  Defaults to the pythonnet default."]

/-- Open a module, restore it and write it. -/
def restoreFile (input output typeName fieldName : String) (runtime : Option String) :
    Action Shell (Option Nat) := do
  let m ← openModule input
  Action.update fun shell => { shell with requests := shell.requests ++ [⟨input, runtime⟩] }
  let restorer : Restorer :=
    { typeName := .text typeName, fieldName := .text fieldName, bias := .integer defaultBias }
  onCase m {} (Case.onWorkspace (Workspace.runRestorer restorer output))
  return none

/-- The command, given its arguments. -/
def restore (args : List String) : Action Shell Nat :=
  match args with
  | [input, output, typeName, fieldName] =>
    guarded (restoreFile input output typeName fieldName none)
  | [input, output, typeName, fieldName, runtime] =>
    guarded (restoreFile input output typeName fieldName (some runtime))
  | _ => do
    Action.sayAll restoreUsage
    return 1

end CilRestore.Shell
