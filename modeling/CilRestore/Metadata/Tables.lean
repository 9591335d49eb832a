import CilRestore.Metadata.Layout

/-!
# The rows of the metadata tables

Rows as the loader reads them: from the bytes of the tables stream alone, and with names and blobs
from the bytes of their heaps. Of several streams of one name the last one counts here, and an index
is taken to be narrow for one row more than it can number. A table that its stream cuts off has all
of its rows, but they are blank; so is a cell whose index leads out of its heap.
-/

namespace CilRestore

-- Powers and sums of numbers are those of the core library, whatever else is imported.
attribute [local instance (high)] instPowNat Zero.ofOfNat0

/-- The tables of a file and the heaps that their cells refer to. -/
structure MetadataTables where
  /-- The sizes of the tables. -/
  sizes : TableSizes
  /-- The bytes of the tables, from the first one on. -/
  body : Bytes
  /-- The heap of names. -/
  names : Option Bytes
  /-- The heap of blobs. -/
  blobs : Option Bytes
  deriving DecidableEq, Repr

namespace MetadataTables

/-- The names of streams that hold tables. -/
def streamNames : List String := ["#~", "#-", "#Schema"]

/-- Whether a table is one that no reader knows the rows of. -/
def isUnknown (table : Nat) : Bool :=
  Schema.pointerTables.contains table || Schema.markerTable ≤ table

/-- The tables that a stream holds. A stream without a whole head has none, and one that ends in its
numbers of rows cannot be read, nor one with rows of a table that no reader knows. -/
def ofStreams (tables : Bytes) (names blobs : Option Bytes) : Except Fault MetadataTables :=
  if tables.length < MetadataLayout.tablesHeadSize then
    .ok { sizes := ⟨0, [], 1⟩, body := [], names, blobs }
  else
    match MetadataLayout.readTables tables 0 with
    | .error _ => .error .wrongKind
    | .ok (sizes, start) =>
      if sizes.rowCounts.any fun (table, count) => isUnknown table && count ≠ 0 then
        .error .unknownTable
      else
        .ok { sizes := { sizes with beyond := 1 }, body := tables.drop start.toNat, names, blobs }

/-- The name at an index of the heap of names; ill-formed names are empty. A name that no zero ends
lacks the last byte of the heap. -/
def name? (t : MetadataTables) (index : Nat) : Option String :=
  t.names.bind fun heap =>
    let rest := heap.drop index
    if rest.isEmpty then none
    else
      let name := if rest.contains 0 then rest.takeWhile (· ≠ 0) else rest.dropLast
      some ((Text.Utf8.decode? name).getD "")

/-- The blob at an index of its heap, as much of it as the heap holds. -/
def blob? (t : MetadataTables) (index : Nat) : Option Bytes :=
  t.blobs.bind fun heap =>
    let rest := heap.drop index
    match Compressed.read rest with
    | .error _ => none
    | .ok (length, size) => some (Bytes.slice rest size length)

/-- Split a row into the numbers of its columns. -/
def splitRow : List Nat → Bytes → List Nat
  | [], _ => []
  | width :: widths, bs => Bytes.number (bs.take width) :: splitRow widths (bs.drop width)

/-- Read rows as the numbers of their columns. -/
def readRows (widths : List Nat) : Nat → Bytes → List (List Nat)
  | 0, _ => []
  | count + 1, bs =>
    splitRow widths (bs.take widths.sum) :: readRows widths count (bs.drop widths.sum)

/-- The number of rows of a table from which on tokens cannot number them. -/
def rowLimit : Nat := 2 ^ (24 : Nat)

/-- The rows of a table as the numbers of their columns; none for the rows of a table that is cut
off. A table that states more rows than tokens can number gives access to none of them. -/
def rows (t : MetadataTables) (table : Nat) : List (Option (List Nat)) :=
  let widths := (Schema.columns table).map fun column => t.sizes.columnWidth column.2
  let stated := t.sizes.rowCount table
  let count := if stated < rowLimit then stated else 0
  let bytes := t.body.drop (t.sizes.bytesBefore table)
  if bytes.length < count * widths.sum then List.replicate count none
  else (readRows widths count bytes).map some

/-- Whether a cell of a whole row is filled: an index of a heap has to lead to an entry, and a coded
one to a table. -/
def isFilled (t : MetadataTables) (value : Nat) : Column → Bool
  | .name => (t.name? value).isSome
  | .blob => (t.blob? value).isSome
  | .coded code => (code.table? value).isSome
  | _ => true

/-- Whether a column of a blank row is filled: it is where it is a list, which is empty then. -/
def isFilledBlank : Column → Bool
  | .row _ => true
  | _ => false

/-- Whether a column of a row is filled; the row is counted from 1. -/
def hasCell (t : MetadataTables) (table rid : Nat) (column : String) : Except Fault Bool :=
  let columns := Schema.columns table
  match columns.zipIdx.find? fun entry => entry.1.1 = column with
  | none => .error .missingMember
  | some ((_, kind), position) =>
    match (t.rows table)[rid - 1]?.join with
    | none => .ok (isFilledBlank kind)
    | some row => .ok (t.isFilled (row.getD position 0) kind)

end MetadataTables

end CilRestore
