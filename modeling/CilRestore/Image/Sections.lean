import CilRestore.Image.Headers

/-!
# Sections

The table of sections says which part of the file stands at which address. The headers are blocks of
40 bytes behind the optional header.
-/

namespace CilRestore

/-- A section header and where it stands in the file. -/
structure Section where
  /-- The file offset of the header. -/
  offset : Nat
  /-- The header. -/
  block : Bytes
  deriving DecidableEq, Repr

namespace Section

/-- The bytes of a section header. -/
def headerSize : Nat := 40

/-- The bytes of the section in memory. -/
def virtualSizeField : Field := ⟨"VirtualSize", 8, 4⟩

/-- The RVA of the section. -/
def virtualAddressField : Field := ⟨"VirtualAddress", 12, 4⟩

/-- The bytes of the section in the file. -/
def rawSizeField : Field := ⟨"SizeOfRawData", 16, 4⟩

/-- Where the section starts in the file. -/
def rawStartField : Field := ⟨"PointerToRawData", 20, 4⟩

/-- What the section holds and how it may be used. -/
def characteristicsField : Field := ⟨"Characteristics", 36, 4⟩

/-- The fields behind the name. -/
def fields : List Field :=
  Field.sequence 8 [("VirtualSize", 4), ("VirtualAddress", 4), ("SizeOfRawData", 4),
    ("PointerToRawData", 4), ("PointerToRelocations", 4), ("PointerToLinenumbers", 4),
    ("NumberOfRelocations", 2), ("NumberOfLinenumbers", 2), ("Characteristics", 4)]

/-- The section holds code. -/
def containsCode : Nat := 0x00000020

/-- The section holds data. -/
def containsData : Nat := 0x00000040

/-- The section may be executed. -/
def mayExecute : Nat := 0x20000000

/-- The section may be read. -/
def mayRead : Nat := 0x40000000

/-- The name, up to its first zero byte. -/
def name (s : Section) : Bytes := (s.block.take 8).takeWhile (· ≠ 0)

/-- The RVA of the section. -/
def virtualAddress (s : Section) : Nat := virtualAddressField.get s.block

/-- The bytes of the section in the file. -/
def rawSize (s : Section) : Nat := rawSizeField.get s.block

/-- Where the section starts in the file. -/
def rawStart (s : Section) : Nat := rawStartField.get s.block

/-- What the section holds and how it may be used. -/
def characteristics (s : Section) : Nat := characteristicsField.get s.block

/-- The stated bytes in memory, which may be 0. -/
def statedVirtualSize (s : Section) : Nat := virtualSizeField.get s.block

/-- The bytes of the section in memory; where none are stated, those in the file. -/
def virtualSize (s : Section) : Nat :=
  if s.statedVirtualSize = 0 then s.rawSize else s.statedVirtualSize

/-- Read section headers from an offset on. -/
def readFrom (data : Bytes) : Nat → Nat → Except Fault (List Section)
  | 0, _ => .ok []
  | count + 1, offset =>
    let block := Bytes.slice data offset headerSize
    if block.length < headerSize then .error (.reconstruction "section table out of bounds")
    else (⟨offset, block⟩ :: ·) <$> readFrom data count (offset + headerSize)

/-- Read the table of sections. -/
def readTable (data : Bytes) (h : ImageHeaders) : Except Fault (List Section) :=
  readFrom data h.sectionCount h.tableStart

/-- Read the headers of a file and its table of sections. -/
def readAll (data : Bytes) : Except Fault (ImageHeaders × List Section) := do
  let h ← ImageHeaders.read data
  return (h, ← readTable data h)

/-- Whether an RVA lies in the part of a section that is in the file. -/
def holds (s : Section) (rva : Int) : Bool :=
  s.virtualAddress ≤ rva && rva < s.virtualAddress + s.rawSize

/-- The file offset of an RVA; the first section that holds it decides. -/
def offsetOf? (sections : List Section) (rva : Int) : Option Nat :=
  (sections.find? fun s => s.holds rva).map fun s =>
    (rva - s.virtualAddress + s.rawStart).toNat

end Section

end CilRestore
