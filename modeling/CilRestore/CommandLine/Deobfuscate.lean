import CilRestore.CommandLine.Shell
import CilRestore.Instruction.Text

/-!
# The command for single steps

It restores the bodies of a module, offers the module to the deobfuscators, or prints the code of a
method.
-/

namespace CilRestore

/-- What the command is to do. -/
inductive DeobfuscateMode where
  /-- Put bodies back. -/
  | restore
  /-- Print the code of a method. -/
  | disassemble
  /-- Offer the module to the deobfuscators. -/
  | deobfuscate
  deriving DecidableEq, Repr

/-- The mode of a name. -/
def DeobfuscateMode.ofName? : String → Option DeobfuscateMode
  | "restore" => some .restore
  | "disas" => some .disassemble
  | "deob" => some .deobfuscate
  | _ => none

namespace Shell

/-- How the command is used. -/
def deobfuscateUsage : List String :=
  ["Usage: net_deobfuscate.py <deob type> <input file> <output file> <extra args>", "Types:",
    "restore: Puts back method bodies held in a runtime cache.  Extra args: " ++
      "<cache type> <cache field> [runtime] [key bias]",
    "disas: Prints the disassembly of a method.  The output file argument is the method rid.",
    "deob: Runs a file against the list of deobfuscators.  Extra args: " ++
      "<cache type> <cache field> [runtime]"]

/-- Print the code of a method. -/
def printMethod (literal : String) (rid : Int) : Action Case Unit := do
  let m := (← Action.read).workspace.module_
  match m.rows.row? .methodDef rid with
  | none => Action.say ("error: no method with rid " ++ literal)
  | some row => do
    Action.say (m.rows.methodName row.rid)
    let pool ← Case.onWorkspace (Workspace.onModule (Module.disassemble row.rid))
    Action.sayAll (pool.toList.map (Pool.line pool))

/-- Do what the command is to do with a module; an answer ends the command at once. -/
def deobfuscateModule (mode : DeobfuscateMode) (output : String) : Action Case (Option Nat) := do
  let write : Action Case Unit := Case.onWorkspace (Workspace.write output)
  match mode with
  | .disassemble =>
    match Text.integer? output with
    | none => Action.fail .badValue
    | some rid => do
      printMethod output rid
      return some 0
  | .restore => do
    let _ ← Case.restoreBodies
    write
    return none
  | .deobfuscate => do
    if ← Deobfuscator.runAll deobfuscators then
      write
      return none
    Action.say "Nothing was deobfuscated."
    return some 0

/-- Open a module and do what the command is to do with it. -/
def deobfuscateFile (mode : DeobfuscateMode) (input output : String) (context : Context) :
    Action Shell (Option Nat) := do
  match ← Action.attempt (openModule input) with
  | .ok m => onCase m context (deobfuscateModule mode output)
  | .error .notDotNet => do
    Action.say "Not a dotnet file."
    return some 0
  | .error e => Action.fail e

/-- The command, given its arguments. -/
def deobfuscate (args : List String) : Action Shell Nat := do
  match args with
  | modeName :: input :: output :: extra =>
    match DeobfuscateMode.ofName? modeName with
    | none => do
      Action.say "invalid mode"
      return 0
    | some mode => do
      let context ← Action.ofExcept (Context.ofArguments extra)
      if mode = .restore && !(context.has Context.typeName && context.has Context.fieldName) then
        Action.sayAll deobfuscateUsage
        return 0
      guarded (deobfuscateFile mode input output context)
  | _ => do
    Action.sayAll deobfuscateUsage
    return 0

end Shell

end CilRestore
