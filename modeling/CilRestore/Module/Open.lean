import CilRestore.Image.Mapping
import CilRestore.Module.Basic

/-!
# Modules from files

Reading a module from the bytes of an executable: the headers, the map of the loaded image, the
metadata and its rows. What is no executable with metadata is no .NET file.
-/

namespace CilRestore

-- Powers of numbers are those of the core library, whatever else is imported.
attribute [local instance (high)] instPowNat

namespace ModuleRows

/-- The rows of a list that starts at a row and ends where the list of the next type starts, or with
the table. A list that starts at 0 has that row too, though there is none. -/
def run (start : Nat) (next : Option Nat) (count : Nat) : List Int :=
  let stop := min (next.getD (count + 1)) (count + 1)
  (List.range stop).filterMap fun rid => if start ≤ rid then some (rid : Int) else none

/-- The row that a number in a coded column stands for. -/
def codedRow (code : IndexCode) (value : Nat) : CodedRow where
  table := (code.table? value).map fun table => (table : Int)
  row := (value / 2 ^ code.tagBits : Nat)

/-- A name as a cell of a file holds it. -/
def fileName (t : MetadataTables) (index : Nat) : NameCell :=
  match t.name? index with
  | some name => .text name
  | none => .absent

/-- Read the types; each list ends where that of the next type starts, and is empty in a blank
row. -/
def readTypes (name : Nat → NameCell) (fieldCount methodCount : Nat) :
    List (Option (List Nat)) → List TypeDefRow
  | [] => []
  | row :: rest =>
    let column (row : List Nat) (i : Nat) := row.getD i 0
    let next (i : Nat) := rest.head?.join.map fun row => column row i
    let lists (i count : Nat) : Option (List Int) :=
      match row with
      | some row => some (run (column row i) (next i) count)
      | none => some []
    let cell (i : Nat) : NameCell :=
      match row with
      | some row => name (column row i)
      | none => .absent
    { name := cell 1, space := cell 2, fields := lists 4 fieldCount
      methods := lists 5 methodCount } ::
      readTypes name fieldCount methodCount rest

/-- Read the rows of a file; a blank row has no cells. -/
def read (t : MetadataTables) : ModuleRows :=
  let rows (kind : RowKind) := t.rows kind.table
  let number (row : Option (List Nat)) (i : Nat) : Option Nat := row.map (·.getD i 0)
  let name (row : Option (List Nat)) (i : Nat) : NameCell :=
    match number row i with
    | some index => fileName t index
    | none => .absent
  let blob (row : Option (List Nat)) (i : Nat) : BlobCell := (number row i).bind t.blob?
  let coded (code : IndexCode) (row : Option (List Nat)) : Option CodedRow :=
    (number row 0).map (codedRow code)
  let methods := rows .methodDef
  let fields := rows .field
  { typeRefs := ((rows .typeRef).map fun row => ⟨name row 2, name row 1⟩).toArray
    typeDefs :=
      (readTypes (fileName t) fields.length methods.length (rows .typeDef)).toArray
    fields := (fields.map fun row => name row 1).toArray
    methods := (methods.map fun row =>
      { rva := (number row 0).map fun rva => (rva : Int), name := name row 3
        signature := blob row 4 }).toArray
    memberRefs := ((rows .memberRef).map fun row =>
      { parent := coded .memberRefParent row, name := name row 1
        signature := blob row 2 }).toArray
    signatures := ((rows .standAloneSig).map fun row => blob row 0).toArray
    typeSpecs := ((rows .typeSpec).map fun row => blob row 0).toArray
    methodSpecs := ((rows .methodSpec).map (coded .methodDefOrRef)).toArray }

end ModuleRows

namespace Module

/-- The directories of a file, as many as the file states; the highest bit of their number does not
count. -/
def directories (h : ImageHeaders) : List (Nat × Nat) :=
  let stated := (OptionalHeader.numberOfDirectories h.is64).get h.optional
  h.directories.take (stated % 2 ^ (31 : Nat))

/-- The fault of a file is that it is no .NET file, where nothing else is known. -/
def orNotDotNet {α : Type} (value : Option α) : Except Fault α :=
  match value with
  | some value => .ok value
  | none => .error .notDotNet

/-- The bytes of a metadata root in front of its version. -/
def rootHeadSize : Nat := 16

/-- The RVA of the metadata root, when the root can be looked at: the directory and the runtime
header state bytes that are there, the version has the length that the root states, and the root
begins with the signature. -/
def metadataRva (data : Bytes) (map : ImageMap) (directories : List (Nat × Nat)) :
    Except Fault Nat := do
  let (rva, size) ← orNotDotNet directories[MetadataLayout.runtimeDirectory]?
  if rva = 0 then throw .notDotNet
  let header ← orNotDotNet (map.read? data rva size)
  if header.length < MetadataLayout.runtimeHeaderSize then throw .notDotNet
  let rootRva := Bytes.field header 8 4
  let rootSize := Bytes.field header 12 4
  let root ← orNotDotNet (map.read? data rootRva rootSize)
  if root.length < max rootHeadSize rootSize then throw .notDotNet
  let versionLength := Bytes.field root 12 4
  let version ← orNotDotNet (map.read? data (rootRva + rootHeadSize) versionLength)
  if version.length ≠ versionLength then throw .unencodable
  if Bytes.field root 0 4 ≠ MetadataLayout.signature then throw .notDotNet
  return rootRva

/-- The streams of a metadata root, up to the first one that cannot be read. -/
def streams (data : Bytes) (root : Int) : List MetadataStream :=
  match MetadataLayout.readRoot MetadataLayout.filledNext data root with
  | .ok (streams, _) => streams
  | .error _ => []

/-- The tables of a file, read from its last streams. All streams have to have addresses that can be
read, and one of them has to hold tables. -/
def tables (data : Bytes) (map : ImageMap) (rootRva : Nat) (streams : List MetadataStream) :
    Except Fault MetadataTables := do
  let read ← orNotDotNet (streams.mapM fun s =>
    (fun bytes => (s.name, bytes)) <$> map.read? data (rootRva + s.start) s.size)
  let last? (names : List String) : Option Bytes :=
    (read.reverse.find? fun entry => names.contains entry.1).map (·.2)
  let stream ← orNotDotNet (last? MetadataTables.streamNames)
  MetadataTables.ofStreams stream (last? ["#Strings"]) (last? ["#Blob"])

/-- Read a module from the bytes of a file. -/
def ofBytes (data : Bytes) (path : Option String) : Except Fault Module := do
  let h ← orNotDotNet (ImageHeaders.read data).toOption
  let map ← orNotDotNet (ImageMap.ofFile? h data)
  let rootRva ← metadataRva data map (directories h)
  let root ← orNotDotNet (map.offsetOf? rootRva)
  let tables ← tables data map rootRva (streams data root)
  let rvas := (directories h).map fun d => (d.1 : Int)
  let layout ← MetadataLayout.ofDirectories data map.offsetOf? rvas
  return Module.ofRows (ModuleRows.read tables) data (.image layout map.offsetOf? tables) path

end Module

end CilRestore
