import CilRestore.Image.Sections

/-!
# The map of a loaded image

How addresses of a loaded image go back to the file. A section reaches as far as its larger size,
but not into the next section, and not beyond its size in memory when the file ends before its data
does. Starts of sections in the file are rounded down to 512 bytes, and addresses to the alignment.
An address outside of all sections is a file offset, if the file is as long. Each address is looked
up anew, so it does not matter which one was looked up before.

Bytes at an address are read up to the end of the data of their section, or of the headers.
-/

namespace CilRestore

/-- A range of addresses and where it stands in the file. -/
structure MappedRange where
  /-- The first address. -/
  address : Int
  /-- The number of addresses. -/
  length : Int
  /-- The file offset of the first address. -/
  offset : Int
  deriving DecidableEq, Repr

namespace MappedRange

/-- Whether a range holds an address. -/
def holds (r : MappedRange) (rva : Int) : Bool := r.address ≤ rva && rva < r.address + r.length

/-- The file offset of an address that the range holds. -/
def place (r : MappedRange) (rva : Int) : Int := rva - r.address + r.offset

/-- The file offset of an address; the first range that holds it decides. -/
def offsetOf? (ranges : List MappedRange) (rva : Int) : Option Int :=
  (ranges.find? fun r => r.holds rva).map fun r => r.place rva

end MappedRange

/-- A section as it is loaded. -/
structure LoadedSection where
  /-- Its addresses. -/
  range : MappedRange
  /-- The file offset behind its data. -/
  stop : Nat
  deriving DecidableEq, Repr

/-- The map of a loaded image. -/
structure ImageMap where
  /-- The sections, by address. -/
  sections : List LoadedSection
  /-- The bytes in front of the data of all sections. -/
  headerLength : Nat
  /-- The bytes of the file. -/
  fileLength : Nat
  deriving DecidableEq, Repr

namespace ImageMap

/-- The unit that starts of sections in the file are rounded down to. -/
def fileUnit : Nat := 0x200

/-- The alignment of addresses from which on it counts. -/
def pageSize : Nat := 0x1000

/-- The most sections that are loaded. -/
def sectionLimit : Nat := 2048

/-- The size in memory and the address above which a section is doubtful. -/
def addressLimit : Nat := 0x10000000

/-- How many doubts make a section, and all behind it, not count. -/
def doubtLimit : Nat := 3

/-- A file offset as the loader takes it. -/
def adjustOffset (offset : Nat) : Nat := offset / fileUnit * fileUnit

/-- An address as the loader takes it: rounded down to the alignment of sections, or where that is
smaller than a page, to that of the file, though to no less than its unit. -/
def adjustAddress (h : ImageHeaders) (address : Nat) : Nat :=
  let alignment :=
    if h.sectionAlignment < pageSize then max h.fileAlignment fileUnit else h.sectionAlignment
  address / alignment * alignment

/-- How many things about a section are doubtful. -/
def doubts (h : ImageHeaders) (fileLength : Nat) (s : Section) : Nat :=
  let doubtful : List Bool :=
    [fileLength < s.rawStart + s.rawSize, fileLength < adjustOffset s.rawStart,
      addressLimit < s.statedVirtualSize, addressLimit < adjustAddress h s.virtualAddress,
      h.fileAlignment ≠ 0 && s.rawStart % h.fileAlignment ≠ 0]
  doubtful.count true

/-- Read the section headers that count: those in front of the first one that is blank, lies behind
the file or is too doubtful. There are none if the file cuts one off in the middle. -/
def readSections (h : ImageHeaders) (data : Bytes) : Nat → Nat → Option (List Section)
  | 0, _ => some []
  | count + 1, offset =>
    let block := Bytes.slice data offset Section.headerSize
    if block.isEmpty then some []
    else if block.length < Section.headerSize then none
    else if block.all (· = 0) || doubtLimit ≤ doubts h data.length ⟨offset, block⟩ then some []
    else (⟨offset, block⟩ :: ·) <$> readSections h data count (offset + Section.headerSize)

/-- A section as it is loaded; `next` is the address of the section behind it. -/
def load (h : ImageHeaders) (fileLength : Nat) (s : Section) (next : Option Nat) :
    LoadedSection :=
  let address := adjustAddress h s.virtualAddress
  let offset := adjustOffset s.rawStart
  let full :=
    if (fileLength : Int) - offset < s.rawSize then s.statedVirtualSize
    else max s.rawSize s.statedVirtualSize
  let length :=
    match next with
    | some next =>
      if s.virtualAddress < next && next < address + full then next - address else full
    | none => full
  ⟨⟨address, length, offset⟩, s.rawStart + s.rawSize⟩

/-- Load sections that are sorted by address. -/
def loadAll (h : ImageHeaders) (fileLength : Nat) : List Section → List LoadedSection
  | [] => []
  | s :: rest =>
    load h fileLength s (rest.head?.map Section.virtualAddress) :: loadAll h fileLength rest

/-- The bytes that count as headers: those in front of the first data of a section, or where that
lies among the section headers, up to the end of these. -/
def headerLengthOf (h : ImageHeaders) (sections : List Section) : Nat :=
  let stop :=
    if sections.isEmpty then h.tableStart
    else h.tableStart + h.sectionCount * Section.headerSize
  let starts := (sections.filter fun s => s.rawStart ≠ 0).map fun s => adjustOffset s.rawStart
  match starts.min? with
  | some lowest => if lowest = 0 || lowest < stop then stop else lowest
  | none => stop

/-- The map of a file, unless the file cuts off a section header. -/
def ofFile? (h : ImageHeaders) (data : Bytes) : Option ImageMap :=
  (readSections h data (min h.sectionCount sectionLimit) h.tableStart).map fun sections =>
    let sorted := sections.mergeSort fun a b => a.virtualAddress ≤ b.virtualAddress
    ⟨loadAll h data.length sorted, headerLengthOf h sections, data.length⟩

/-- The file offset of an address. -/
def offsetOf? (m : ImageMap) (rva : Int) : Option Int :=
  match MappedRange.offsetOf? (m.sections.map (·.range)) rva with
  | some offset => some offset
  | none => if rva < m.fileLength then some rva else none

/-- The bytes at an address, fewer where their section or the headers end first. Outside of all
sections no bytes means all of them. -/
def read? (m : ImageMap) (data : Bytes) (rva count : Nat) : Option Bytes :=
  match m.sections.find? fun s => s.range.holds rva with
  | some s =>
    let offset := (s.range.place rva).toNat
    some (Bytes.slice data offset (min (offset + count) s.stop - offset))
  | none =>
    if m.fileLength ≤ rva then none
    else
      let stop := if count = 0 then m.fileLength else rva + count
      let stop := if rva < m.headerLength then min stop m.headerLength else stop
      some (Bytes.slice data rva (stop - rva))

end ImageMap

end CilRestore
