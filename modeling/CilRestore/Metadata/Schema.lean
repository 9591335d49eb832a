import CilRestore.Bytes.Basic

/-!
# The schema of the metadata tables

The columns of every table, as the standard lists them. A column that refers to a heap or to other
tables is two or four bytes wide, as the heaps and the tables of the file require.
-/

namespace CilRestore

-- Powers and sums of numbers are those of the core library, whatever else is imported.
attribute [local instance (high)] instPowNat Zero.ofOfNat0

/-- A set of tables that a coded index can refer to. -/
structure IndexCode where
  /-- The low bits that tell the tables apart. -/
  tagBits : Nat
  /-- The tables by tag; a tag may stand for none. -/
  tables : List (Option Nat)
  deriving DecidableEq, Repr

namespace IndexCode

/-- The table that a number in a coded column stands for, if its tag stands for one. -/
def table? (code : IndexCode) (value : Nat) : Option Nat :=
  (code.tables[value % 2 ^ code.tagBits]?).join

/-- A code whose tags all stand for tables. -/
def ofTables (tagBits : Nat) (tables : List Nat) : IndexCode := ⟨tagBits, tables.map some⟩

/-- A type in any form. -/
def typeDefOrRef : IndexCode := ofTables 2 [0x02, 0x01, 0x1B]

/-- What has a constant value. -/
def hasConstant : IndexCode := ofTables 2 [0x04, 0x08, 0x17]

/-- What has custom attributes. -/
def hasCustomAttribute : IndexCode :=
  ofTables 5 [0x06, 0x04, 0x01, 0x02, 0x08, 0x09, 0x0A, 0x00, 0x0E, 0x17, 0x14, 0x11, 0x1A, 0x1B,
    0x20, 0x23, 0x26, 0x27, 0x28, 0x2A, 0x2C, 0x2B]

/-- What is marshalled. -/
def hasFieldMarshal : IndexCode := ofTables 1 [0x04, 0x08]

/-- What has security attributes. -/
def hasDeclSecurity : IndexCode := ofTables 2 [0x02, 0x06, 0x20]

/-- What has members. -/
def memberRefParent : IndexCode := ofTables 3 [0x02, 0x01, 0x1A, 0x06, 0x1B]

/-- What has accessors. -/
def hasSemantics : IndexCode := ofTables 1 [0x14, 0x17]

/-- A method in any form. -/
def methodDefOrRef : IndexCode := ofTables 1 [0x06, 0x0A]

/-- What another module implements. -/
def memberForwarded : IndexCode := ofTables 1 [0x04, 0x06]

/-- Where something is implemented. -/
def implementation : IndexCode := ofTables 2 [0x26, 0x23, 0x27]

/-- The constructor of a custom attribute. -/
def customAttributeType : IndexCode := ⟨3, [none, none, some 0x06, some 0x0A, none]⟩

/-- Where a type of another module is found. -/
def resolutionScope : IndexCode := ofTables 2 [0x00, 0x1A, 0x23, 0x01]

/-- What has generic parameters. -/
def typeOrMethodDef : IndexCode := ofTables 1 [0x02, 0x06]

end IndexCode

/-- What a column holds. -/
inductive Column where
  /-- A number of this many bytes. -/
  | number (width : Nat)
  /-- An index into the heap of names. -/
  | name
  /-- An index into the heap of GUIDs. -/
  | guid
  /-- An index into the heap of blobs. -/
  | blob
  /-- A row of a table, or the first row of a list in it. -/
  | row (table : Nat)
  /-- A row of one of several tables. -/
  | coded (code : IndexCode)
  deriving DecidableEq, Repr

namespace Schema

open Column

/-- The columns of a table with their names; unknown tables have none. -/
def columns : Nat → List (String × Column)
  | 0x00 => [("Generation", number 2), ("Name", name), ("Mvid", guid), ("EncId", guid),
      ("EncBaseId", guid)]
  | 0x01 => [("ResolutionScope", coded .resolutionScope), ("TypeName", name),
      ("TypeNamespace", name)]
  | 0x02 => [("Flags", number 4), ("TypeName", name), ("TypeNamespace", name),
      ("Extends", coded .typeDefOrRef), ("FieldList", row 0x04), ("MethodList", row 0x06)]
  | 0x03 => [("Field", row 0x04)]
  | 0x04 => [("Flags", number 2), ("Name", name), ("Signature", blob)]
  | 0x05 => [("Method", row 0x06)]
  | 0x06 => [("Rva", number 4), ("ImplFlags", number 2), ("Flags", number 2), ("Name", name),
      ("Signature", blob), ("ParamList", row 0x08)]
  | 0x07 => [("Param", row 0x08)]
  | 0x08 => [("Flags", number 2), ("Sequence", number 2), ("Name", name)]
  | 0x09 => [("Class", row 0x02), ("Interface", coded .typeDefOrRef)]
  | 0x0A => [("Class", coded .memberRefParent), ("Name", name), ("Signature", blob)]
  | 0x0B => [("Type", number 2), ("Parent", coded .hasConstant), ("Value", blob)]
  | 0x0C => [("Parent", coded .hasCustomAttribute), ("Type", coded .customAttributeType),
      ("Value", blob)]
  | 0x0D => [("Parent", coded .hasFieldMarshal), ("NativeType", blob)]
  | 0x0E => [("Action", number 2), ("Parent", coded .hasDeclSecurity), ("PermissionSet", blob)]
  | 0x0F => [("PackingSize", number 2), ("ClassSize", number 4), ("Parent", row 0x02)]
  | 0x10 => [("Offset", number 4), ("Field", row 0x04)]
  | 0x11 => [("Signature", blob)]
  | 0x12 => [("Parent", row 0x02), ("EventList", row 0x14)]
  | 0x13 => [("Event", row 0x14)]
  | 0x14 => [("EventFlags", number 2), ("Name", name), ("EventType", coded .typeDefOrRef)]
  | 0x15 => [("Parent", row 0x02), ("PropertyList", row 0x17)]
  | 0x16 => [("Property", row 0x17)]
  | 0x17 => [("Flags", number 2), ("Name", name), ("Type", blob)]
  | 0x18 => [("Semantics", number 2), ("Method", row 0x06), ("Association", coded .hasSemantics)]
  | 0x19 => [("Class", row 0x02), ("MethodBody", coded .methodDefOrRef),
      ("MethodDeclaration", coded .methodDefOrRef)]
  | 0x1A => [("Name", name)]
  | 0x1B => [("Signature", blob)]
  | 0x1C => [("MappingFlags", number 2), ("MemberForwarded", coded .memberForwarded),
      ("ImportName", name), ("ImportScope", row 0x1A)]
  | 0x1D => [("Rva", number 4), ("Field", row 0x04)]
  | 0x1E => [("Token", number 4), ("FuncCode", number 4)]
  | 0x1F => [("Token", number 4)]
  | 0x20 => [("HashAlgId", number 4), ("MajorVersion", number 2), ("MinorVersion", number 2),
      ("BuildNumber", number 2), ("RevisionNumber", number 2), ("Flags", number 4),
      ("PublicKey", blob), ("Name", name), ("Culture", name)]
  | 0x21 => [("Processor", number 4)]
  | 0x22 => [("PlatformId", number 4), ("MajorVersion", number 4), ("MinorVersion", number 4)]
  | 0x23 => [("MajorVersion", number 2), ("MinorVersion", number 2), ("BuildNumber", number 2),
      ("RevisionNumber", number 2), ("Flags", number 4), ("PublicKey", blob), ("Name", name),
      ("Culture", name), ("HashValue", blob)]
  | 0x24 => [("Processor", number 4), ("AssemblyRef", row 0x23)]
  | 0x25 => [("PlatformId", number 4), ("MajorVersion", number 4), ("MinorVersion", number 4),
      ("AssemblyRef", row 0x23)]
  | 0x26 => [("Flags", number 4), ("Name", name), ("HashValue", blob)]
  | 0x27 => [("Flags", number 4), ("TypeDefId", number 4), ("TypeName", name),
      ("TypeNamespace", name), ("Implementation", coded .implementation)]
  | 0x28 => [("Offset", number 4), ("Flags", number 4), ("Name", name),
      ("Implementation", coded .implementation)]
  | 0x29 => [("NestedClass", row 0x02), ("EnclosingClass", row 0x02)]
  | 0x2A => [("Number", number 2), ("Flags", number 2), ("Owner", coded .typeOrMethodDef),
      ("Name", name)]
  | 0x2B => [("Method", coded .methodDefOrRef), ("Instantiation", blob)]
  | 0x2C => [("Owner", row 0x2A), ("Constraint", coded .typeDefOrRef)]
  | _ => []

/-- The tables in front of the one for events and in front of the one for properties. -/
def pointerTables : List Nat := [0x13, 0x16]

/-- The first of the numbers that mark the end of the tables. -/
def markerTable : Nat := 0x3E

end Schema

/-- What the widths of columns depend on. -/
structure TableSizes where
  /-- The flags of the wide heaps. -/
  heapFlags : Nat
  /-- The tables that are there, each with its number of rows. -/
  rowCounts : List (Nat × Nat)
  /-- How many rows a narrow index is taken to number beyond those below its limit. -/
  beyond : Nat := 0
  deriving DecidableEq, Repr

namespace TableSizes

/-- The heap of names is wide. -/
def wideNames : Nat := 0x01

/-- The heap of GUIDs is wide. -/
def wideGuids : Nat := 0x02

/-- The heap of blobs is wide. -/
def wideBlobs : Nat := 0x04

/-- Four more bytes follow the numbers of rows. -/
def extraData : Nat := 0x40

/-- The number of rows of a table; a table that is not there has none. -/
def rowCount (t : TableSizes) (table : Nat) : Nat :=
  match t.rowCounts.find? fun entry => entry.1 = table with
  | some entry => entry.2
  | none => 0

/-- The width of an index into a heap. -/
def heapWidth (t : TableSizes) (flag : Nat) : Nat := if t.heapFlags &&& flag ≠ 0 then 4 else 2

/-- The width of an index into tables with at most so many rows, when a narrow one has a limit. -/
def indexWidth (t : TableSizes) (limit most : Nat) : Nat := if most < limit + t.beyond then 2 else 4

/-- The width of a row number. -/
def rowWidth (t : TableSizes) (table : Nat) : Nat := t.indexWidth 0x10000 (t.rowCount table)

/-- The width of a coded index, which its largest table decides. -/
def codedWidth (t : TableSizes) (code : IndexCode) : Nat :=
  let most := (code.tables.filterMap id).foldl (fun most table => max most (t.rowCount table)) 0
  t.indexWidth (2 ^ (16 - code.tagBits)) most

/-- The width of a column. -/
def columnWidth (t : TableSizes) : Column → Nat
  | .number width => width
  | .name => t.heapWidth wideNames
  | .guid => t.heapWidth wideGuids
  | .blob => t.heapWidth wideBlobs
  | .row table => t.rowWidth table
  | .coded code => t.codedWidth code

/-- The bytes of a row. -/
def rowSize (t : TableSizes) (table : Nat) : Nat :=
  ((Schema.columns table).map fun column => t.columnWidth column.2).sum

/-- The bytes of all tables in front of a table. -/
def bytesBefore (t : TableSizes) (table : Nat) : Nat :=
  ((List.range table).map fun earlier => t.rowCount earlier * t.rowSize earlier).sum

end TableSizes

end CilRestore
