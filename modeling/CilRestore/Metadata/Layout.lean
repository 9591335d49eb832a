import CilRestore.Compressed
import CilRestore.Metadata.Schema
import CilRestore.Text.Hex
import CilRestore.Text.Unicode

/-!
# The layout of metadata

Where metadata stands in a file: the runtime header, the root with its streams, and the tables
stream with its row counts. From these follow the file offset of every row up to the methods, and
of the cell that holds the RVA of a method.
-/

namespace CilRestore

/-- A stream of the metadata. -/
structure MetadataStream where
  /-- The name. -/
  name : String
  /-- Where it starts, counted from the metadata root. -/
  start : Nat
  /-- The bytes it takes. -/
  size : Nat
  deriving DecidableEq, Repr

namespace MetadataStream

/-- The first stream of a name. -/
def first? (streams : List MetadataStream) (name : String) : Option MetadataStream :=
  streams.find? fun s => s.name = name

/-- Of each name the first stream. -/
def distinct : List MetadataStream → List MetadataStream
  | [] => []
  | s :: rest => s :: (distinct rest).filter fun t => t.name ≠ s.name

end MetadataStream

/-- Where metadata stands in a file. The offsets are those that the map of the image gives, and one
below zero counts from the end of the file. -/
structure MetadataLayout where
  /-- The file offset of the runtime header. -/
  runtimeHeader : Int
  /-- The file offset of the metadata root. -/
  root : Int
  /-- The streams in file order. -/
  streams : List MetadataStream
  /-- The sizes of the tables. -/
  sizes : TableSizes
  /-- The file offset of the first table. -/
  tables : Int
  deriving DecidableEq, Repr

namespace MetadataLayout

/-- The bytes of the runtime header. -/
def runtimeHeaderSize : Nat := 72

/-- The directory that names the runtime header. -/
def runtimeDirectory : Nat := 14

/-- The first four bytes of the root. -/
def signature : Nat := 0x424A5342

/-- The last table whose rows have known offsets: the methods. -/
def lastTable : Nat := 0x06

/-- The bytes in front of the numbers of rows. -/
def tablesHeadSize : Nat := 24

/-- Read a number, which has to end in the file. -/
def readNumber (data : Bytes) (offset : Int) (width : Nat) : Except Fault Nat :=
  if data.length < offset + width then
    .error (.invalidMetadata ("read past end of file at " ++ Text.hex offset))
  else .ok (Bytes.number (Bytes.between data offset (offset + width)))

/-- The offset of the first zero byte from an offset on. -/
def zeroAfter? (data : Bytes) (offset : Int) : Option Nat :=
  let first := Bytes.anchor data.length offset
  let stop := first + ((data.drop first).takeWhile (· ≠ 0)).length
  if stop < data.length then some stop else none

/-- Read a stream header, and say where the zero behind its name stands. -/
def readStream (data : Bytes) (offset : Int) : Except Fault (MetadataStream × Nat) := do
  let start ← readNumber data offset 4
  let size ← readNumber data (offset + 4) 4
  match zeroAfter? data (offset + 8) with
  | none => throw (.invalidMetadata "unterminated stream name")
  | some stop =>
    let name := Text.decodeAscii (Bytes.between data (offset + 8) stop)
    return (⟨name, start, size⟩, stop)

/-- Where the header behind one stands: at the next multiple of four bytes in the file. -/
def alignedNext (_ : Int) (stop : Nat) : Int := Bytes.alignNat (stop + 1) 4

/-- Where the header behind one stands: behind its name, filled up to a multiple of four bytes. -/
def filledNext (offset : Int) (stop : Nat) : Int :=
  offset + 8 + Bytes.alignNat (stop + 1 - (offset + 8)).toNat 4

/-- Read stream headers up to the first one that cannot be read, and say what is wrong with that
one; `next` is where the header behind one stands. -/
def readStreams (next : Int → Nat → Int) (data : Bytes) :
    Nat → Int → List MetadataStream × Option Fault
  | 0, _ => ([], none)
  | count + 1, offset =>
    match readStream data offset with
    | .error e => ([], some e)
    | .ok (stream, stop) =>
      let (rest, fault) := readStreams next data count (next offset stop)
      (stream :: rest, fault)

/-- The stream that holds the tables. -/
def tablesStream (streams : List MetadataStream) : Except Fault MetadataStream :=
  match MetadataStream.first? streams "#~", MetadataStream.first? streams "#-" with
  | some s, _ => .ok s
  | none, some s => .ok s
  | none, none => .error (.invalidMetadata "no tables stream")

/-- Read the numbers of rows of tables, one after the other. -/
def readRowCounts (data : Bytes) : List Nat → Int → List (Nat × Nat) →
    Except Fault (List (Nat × Nat) × Int)
  | [], offset, done => .ok (done.reverse, offset)
  | table :: rest, offset, done =>
    match readNumber data offset 4 with
    | .error e => .error e
    | .ok count => readRowCounts data rest (offset + 4) ((table, count) :: done)

/-- Read the head of the tables stream: the sizes of the tables and where the first one stands. -/
def readTables (data : Bytes) (offset : Int) : Except Fault (TableSizes × Int) := do
  let heapFlags ← readNumber data (offset + 6) 1
  let valid ← readNumber data (offset + 8) 8
  let present := (List.range 64).filter valid.testBit
  let (rowCounts, stop) ← readRowCounts data present (offset + tablesHeadSize) []
  let extra := if heapFlags &&& TableSizes.extraData ≠ 0 then 4 else 0
  return ({ heapFlags, rowCounts }, stop + extra)

/-- Read the streams that the metadata root at an offset lists, up to the first one that cannot be
read, and say what is wrong with that one. -/
def readRoot (next : Int → Nat → Int) (data : Bytes) (root : Int) :
    Except Fault (List MetadataStream × Option Fault) := do
  if (← readNumber data root 4) ≠ signature then
    throw (.invalidMetadata "bad metadata signature")
  let versionLength ← readNumber data (root + 12) 4
  let head := root + 16 + versionLength
  let count ← readNumber data (head + 2) 2
  return readStreams next data count (head + 4)

/-- Find the tables and the streams of the metadata root at an offset, all of which can be read. -/
def ofRoot (data : Bytes) (runtimeHeader root : Int) : Except Fault MetadataLayout := do
  let (streams, fault) ← readRoot alignedNext data root
  match fault with
  | some e => throw e
  | none =>
    let stream ← tablesStream streams
    let (sizes, tables) ← readTables data (root + stream.start)
    return ⟨runtimeHeader, root, streams, sizes, tables⟩

/-- Find the metadata whose runtime header has an RVA; `offsetOf` gives the file offset of an
RVA. -/
def locate (data : Bytes) (offsetOf : Int → Option Int) (headerRva : Int) :
    Except Fault MetadataLayout := do
  let outside : Fault := .invalidMetadata "COR20 header out of bounds"
  match offsetOf headerRva with
  | none => throw outside
  | some header =>
    if data.length < header + runtimeHeaderSize then throw outside
    if header < 0 then throw .badValue
    match offsetOf (Bytes.field data (header.toNat + 8) 4) with
    | none => throw (.invalidMetadata "metadata RVA is not mapped")
    | some root => ofRoot data header root

/-- Find the metadata that the directories of a file name. -/
def ofDirectories (data : Bytes) (offsetOf : Int → Option Int) (directories : List Int) :
    Except Fault MetadataLayout :=
  match directories[runtimeDirectory]? with
  | none => .error .notDotNet
  | some rva => if rva = 0 then .error .notDotNet else locate data offsetOf rva

/-- The file offset of a stream. -/
def offsetOf (m : MetadataLayout) (s : MetadataStream) : Int := m.root + s.start

/-- Of each name the first stream, by name. -/
def listed (m : MetadataLayout) : List MetadataStream :=
  (MetadataStream.distinct m.streams).mergeSort fun a b => decide (a.name ≤ b.name)

/-- The number of rows of a table; a table that is not there has none. -/
def rowCount (m : MetadataLayout) (table : Int) : Nat :=
  if table < 0 then 0 else m.sizes.rowCount table.toNat

/-- The bytes of a row, known up to the methods. -/
def rowSize (m : MetadataLayout) (table : Int) : Except Fault Nat :=
  if 0 ≤ table ∧ table ≤ lastTable then .ok (m.sizes.rowSize table.toNat)
  else .error .unsupported

/-- The file offset of a table, known up to the methods. -/
def tableOffset (m : MetadataLayout) (table : Int) : Except Fault Int :=
  if (lastTable : Int) < table then .error .unsupported
  else .ok (m.tables + m.sizes.bytesBefore table.toNat)

/-- The file offset of the RVA of a method, by the position of its row counted from 0. -/
def rvaCell (m : MetadataLayout) (position : Int) : Except Fault Int :=
  if position < 0 ∨ m.sizes.rowCount lastTable ≤ position then
    .error (.invalidArguments (some "MethodDef position") (some (toString position)))
  else .ok (m.tables + m.sizes.bytesBefore lastTable + position * m.sizes.rowSize lastTable)

/-- The user string at an index of its heap; none where the entry is not well-formed. The last byte
of an entry is a flag. -/
def userString? (m : MetadataLayout) (data : Bytes) (index : Int) : Option String :=
  match MetadataStream.first? m.streams "#US" with
  | none => none
  | some heap =>
    if index ≤ 0 ∨ heap.size ≤ index then none
    else
      match Compressed.readAt data (m.offsetOf heap + index) with
      | .error _ => none
      | .ok (length, start) =>
        if m.offsetOf heap + heap.size < start + length then none
        else Text.Utf16.decode? (Bytes.between data start (start + (length / 2 * 2 : Nat)))

end MetadataLayout

end CilRestore
