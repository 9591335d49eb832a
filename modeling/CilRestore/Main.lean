import CilRestore.CommandLine.Deobfuscate
import CilRestore.CommandLine.Restore
import CilRestore.Path

/-!
# The program

The first argument names a command, the others are its arguments. The files that the arguments name
are read beforehand, the command works on them as values, and what it changed is written back.
-/

namespace CilRestore.Program

/-- The parts of a path from the root on that is a text. -/
def partsOf (path : String) : List Bytes :=
  (Directory.partsOf (Directory.nameOf path)).filter (· ≠ [])

/-- The paths from the root down to a path, itself included. -/
def prefixesOf (path : String) : List Bytes :=
  let parts := partsOf path
  (List.range parts.length).map fun last => Directory.joined (parts.take (last + 1))

/-- What is known of the files and folders that paths lead to or through. -/
def gather (home : String) (paths : List String) : IO Directory := do
  let absolute := paths.map fun path =>
    Path.plain (if path.startsWith "/" then path else home ++ "/" ++ path)
  let names := (absolute.flatMap prefixesOf ++ prefixesOf home).eraseDups
  let mut files : List (Bytes × Bytes) := []
  let mut folders : List Bytes := []
  let here ← IO.currentDir
  for name in names do
    let path := "/" ++ Text.Utf8.decodeLossy name
    if ← (here / path).isDir then
      folders := folders ++ [name]
    else
      try
        let data ← IO.FS.readBinFile path
        files := files ++ [(name, data.toList)]
      catch _ => pure ()
  return { files, folders, home := partsOf home }

/-- Write the files that are new or changed, each beside its place first. -/
def store (before after : Directory) : IO Unit := do
  for (name, data) in after.files do
    if before.contents? name ≠ some data then
      let path := "/" ++ Text.Utf8.decodeLossy name
      IO.FS.writeBinFile (path ++ ".restoring") data.toByteArray
      IO.FS.rename (path ++ ".restoring") path

/-- Run a command in the current folder. There is no runtime to load a module into. -/
def run (command : List String → Action Shell Nat) (args : List String) : IO UInt32 := do
  let directory ← gather (← IO.currentDir).toString args
  let host : RecordedHost :=
    { fileName := "the file", loadError := some "no runtime is available" }
  let done := command args { directory, host }
  for line in done.lines do
    IO.println line
  store directory done.state.directory
  match done.result with
  | .ok code => return code.toUInt32
  | .error e => do
    IO.eprintln e.message
    return 1

end CilRestore.Program

/-- The program. -/
def main (args : List String) : IO UInt32 :=
  match args with
  | "restore" :: rest => CilRestore.Program.run CilRestore.Shell.restore rest
  | "deobfuscate" :: rest => CilRestore.Program.run CilRestore.Shell.deobfuscate rest
  | _ => do
    for line in CilRestore.Shell.restoreUsage ++ CilRestore.Shell.deobfuscateUsage do
      IO.println line
    return 1
