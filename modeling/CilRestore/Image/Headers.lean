import CilRestore.Fault
import CilRestore.Image.Field

/-!
# Image headers

The headers of an executable: the place of the new header, the file header, the optional header in
its form of 32 or 64 bits, and the table of sections behind them. Headers are read as blocks of
bytes and pasted back; the optional header is cut to the size that the file header states.
-/

namespace CilRestore

/-! ### The file header -/

namespace FileHeader

/-- The fields of the file header. -/
def fields : List Field :=
  Field.sequence 0 [("Machine", 2), ("NumberOfSections", 2), ("TimeDateStamp", 4),
    ("PointerToSymbolTable", 4), ("NumberOfSymbols", 4), ("SizeOfOptionalHeader", 2),
    ("Characteristics", 2)]

/-- The bytes of the file header. -/
def size : Nat := 20

/-- How many sections there are. -/
def numberOfSections : Field := ⟨"NumberOfSections", 2, 2⟩

/-- How many bytes the optional header takes in the file. -/
def sizeOfOptionalHeader : Field := ⟨"SizeOfOptionalHeader", 16, 2⟩

end FileHeader

/-! ### The optional header -/

namespace OptionalHeader

/-- The fields that both forms begin with. -/
def leadingFields : List (String × Nat) :=
  [("Magic", 2), ("MajorLinkerVersion", 1), ("MinorLinkerVersion", 1), ("SizeOfCode", 4),
    ("SizeOfInitializedData", 4), ("SizeOfUninitializedData", 4), ("AddressOfEntryPoint", 4),
    ("BaseOfCode", 4)]

/-- The fields that both forms have in the middle. -/
def middleFields : List (String × Nat) :=
  [("SectionAlignment", 4), ("FileAlignment", 4), ("MajorOperatingSystemVersion", 2),
    ("MinorOperatingSystemVersion", 2), ("MajorImageVersion", 2), ("MinorImageVersion", 2),
    ("MajorSubsystemVersion", 2), ("MinorSubsystemVersion", 2), ("Win32VersionValue", 4),
    ("SizeOfImage", 4), ("SizeOfHeaders", 4), ("CheckSum", 4), ("Subsystem", 2),
    ("DllCharacteristics", 2)]

/-- The fields of the optional header in front of the directories. -/
def fields (is64 : Bool) : List Field :=
  let base := if is64 then [("ImageBase", 8)] else [("BaseOfData", 4), ("ImageBase", 4)]
  let word := if is64 then 8 else 4
  Field.sequence 0 (leadingFields ++ base ++ middleFields ++
    [("SizeOfStackReserve", word), ("SizeOfStackCommit", word), ("SizeOfHeapReserve", word),
      ("SizeOfHeapCommit", word), ("LoaderFlags", 4), ("NumberOfRvaAndSizes", 4)])

/-- How many directories the header has room for. -/
def directoryCount : Nat := 16

/-- The bytes in front of the directories. -/
def directoryStart (is64 : Bool) : Nat := if is64 then 112 else 96

/-- The bytes of the optional header. -/
def size (is64 : Bool) : Nat := directoryStart is64 + 8 * directoryCount

/-- The form of the header. -/
def magic : Field := ⟨"Magic", 0, 2⟩

/-- The bytes of all sections with code. -/
def sizeOfCode : Field := ⟨"SizeOfCode", 4, 4⟩

/-- The bytes of all sections with data. -/
def sizeOfInitializedData : Field := ⟨"SizeOfInitializedData", 8, 4⟩

/-- What addresses of sections are multiples of. -/
def sectionAlignment : Field := ⟨"SectionAlignment", 32, 4⟩

/-- What file offsets of sections are multiples of. -/
def fileAlignment : Field := ⟨"FileAlignment", 36, 4⟩

/-- The bytes of the image in memory. -/
def sizeOfImage : Field := ⟨"SizeOfImage", 56, 4⟩

/-- The bytes in front of the first section. -/
def sizeOfHeaders : Field := ⟨"SizeOfHeaders", 60, 4⟩

/-- How many directories there are. -/
def numberOfDirectories (is64 : Bool) : Field :=
  ⟨"NumberOfRvaAndSizes", directoryStart is64 - 4, 4⟩

end OptionalHeader

/-! ### The headers of a file -/

/-- The headers of a file. -/
structure ImageHeaders where
  /-- Where the new header starts. -/
  start : Nat
  /-- Whether the optional header has the form of 64 bits. -/
  is64 : Bool
  /-- The file header. -/
  file : Bytes
  /-- The optional header. -/
  optional : Bytes
  deriving DecidableEq, Repr

namespace ImageHeaders

/-- The bytes of the old header. -/
def oldHeaderSize : Nat := 64

/-- The first two bytes of a file. -/
def oldSignature : Nat := 0x5A4D

/-- The first four bytes of the new header. -/
def signature : Nat := 0x00004550

/-- The magic number of the form of 64 bits. -/
def magic64 : Nat := 0x20B

/-- Where the file header starts. -/
def fileStart (h : ImageHeaders) : Nat := h.start + 4

/-- Where the optional header starts. -/
def optionalStart (h : ImageHeaders) : Nat := h.fileStart + FileHeader.size

/-- The bytes of the optional header in the file. -/
def optionalSize (h : ImageHeaders) : Nat := FileHeader.sizeOfOptionalHeader.get h.file

/-- Where the table of sections starts. -/
def tableStart (h : ImageHeaders) : Nat := h.optionalStart + h.optionalSize

/-- How many sections there are. -/
def sectionCount (h : ImageHeaders) : Nat := FileHeader.numberOfSections.get h.file

/-- The directories, each an RVA and a size. -/
def directories (h : ImageHeaders) : List (Nat × Nat) :=
  (List.range OptionalHeader.directoryCount).map fun i =>
    let place := OptionalHeader.directoryStart h.is64 + 8 * i
    (Bytes.field h.optional place 4, Bytes.field h.optional (place + 4) 4)

/-- Read the headers. A file in which headers of 32 bits do not fit is no .NET file; headers of
64 bits that do not fit are bad values. -/
def read (data : Bytes) : Except Fault ImageHeaders := do
  if data.length < oldHeaderSize then throw .notDotNet
  let start := Bytes.field data 60 4
  let needed (is64 : Bool) := start + 4 + FileHeader.size + OptionalHeader.size is64
  if Bytes.field data 0 2 ≠ oldSignature || data.length < needed false then throw .notDotNet
  let optionalStart := start + 4 + FileHeader.size
  let is64 := Bytes.field data optionalStart 2 = magic64
  if is64 && data.length < needed true then throw .badValue
  if Bytes.field data start 4 ≠ signature then throw .notDotNet
  return {
    start
    is64
    file := Bytes.slice data (start + 4) FileHeader.size
    optional := Bytes.slice data optionalStart (OptionalHeader.size is64) }

/-- Paste the headers into a file. -/
def write (h : ImageHeaders) (data : Bytes) : Bytes :=
  let data := Bytes.splice data h.fileStart h.optionalStart h.file
  Bytes.splice data h.optionalStart (h.optionalStart + h.optionalSize)
    (h.optional.take h.optionalSize)

/-- What addresses of sections are multiples of. -/
def sectionAlignment (h : ImageHeaders) : Nat := OptionalHeader.sectionAlignment.get h.optional

/-- What file offsets of sections are multiples of. -/
def fileAlignment (h : ImageHeaders) : Nat := OptionalHeader.fileAlignment.get h.optional

/-- Change a field of the file header. -/
def modifyFile (h : ImageHeaders) (f : Field) (change : Int → Int) : ImageHeaders :=
  { h with file := f.set (change (f.get h.file)) h.file }

/-- Change a field of the optional header. -/
def modifyOptional (h : ImageHeaders) (f : Field) (change : Int → Int) : ImageHeaders :=
  { h with optional := f.set (change (f.get h.optional)) h.optional }

end ImageHeaders

end CilRestore
