import CilRestore.Image.Sections

/-!
# Growing a file

New data gets a section of its own at the end of the file. Where the headers have no room for
another section header, the last section is extended instead, which only works when nothing follows
it in the file. Both keep what is in the file and say at which RVA the data stands.
-/

namespace CilRestore

/-- A file that has grown and the RVA of what was put into it. -/
structure Grown where
  /-- The new file. -/
  data : Bytes
  /-- The RVA of the new data. -/
  rva : Nat
  deriving DecidableEq, Repr

namespace Grown

/-- The name of a new section: `.rbody`. -/
def newName : Bytes := [0x2E, 0x72, 0x62, 0x6F, 0x64, 0x79]

/-- A new section holds code that may be read and executed. -/
def newCharacteristics : Nat := Section.containsCode + Section.mayExecute + Section.mayRead

/-- A limit lowered to what lies in front of a section with data in the file. -/
def narrow (limit : Nat) (s : Section) : Nat :=
  if s.rawSize ≠ 0 && s.rawStart ≠ 0 then min limit s.rawStart else limit

/-- The bytes that headers have room for: what the headers state, and no more than what lies in
front of the first section with data in the file. -/
def headerLimit (h : ImageHeaders) (sections : List Section) : Nat :=
  sections.foldl narrow (OptionalHeader.sizeOfHeaders.get h.optional)

/-- Whether another section header fits behind the others, on bytes that are all zero. -/
def canAddSection (data : Bytes) (h : ImageHeaders) (sections : List Section) : Bool :=
  let slot := h.tableStart + sections.length * Section.headerSize
  slot + Section.headerSize ≤ headerLimit h sections &&
    (Bytes.slice data slot Section.headerSize).all (· == 0)

/-- The fault of a file without sections. -/
def noSections : Fault := .reconstruction "the file has no sections"

/-- The header of a new section. -/
def newBlock (virtualSize virtualAddress rawSize rawStart : Int) : Bytes :=
  let block := Bytes.padTo newName Section.headerSize
  let block := Section.virtualSizeField.set virtualSize block
  let block := Section.virtualAddressField.set virtualAddress block
  let block := Section.rawSizeField.set rawSize block
  let block := Section.rawStartField.set rawStart block
  Section.characteristicsField.set newCharacteristics block

/-- Put data into a new section at the end of the file. -/
def appendSection (file : Bytes) (h : ImageHeaders) (sections : List Section) (data : Bytes) :
    Except Fault Grown :=
  match sections.getLast? with
  | none => .error noSections
  | some last =>
    let block := newBlock data.length
      (Bytes.alignUp (last.virtualAddress + last.virtualSize) h.sectionAlignment)
      (Bytes.alignUp data.length h.fileAlignment) (Bytes.alignUp file.length h.fileAlignment)
    let added : Section := ⟨last.offset + Section.headerSize, block⟩
    let file := Bytes.padTo file added.rawStart ++ Bytes.padTo data added.rawSize
    let file := Bytes.splice file added.offset (added.offset + Section.headerSize) block
    let h := h.modifyFile FileHeader.numberOfSections (· + 1)
    let h := h.modifyOptional OptionalHeader.sizeOfCode (· + added.rawSize)
    let h := h.modifyOptional OptionalHeader.sizeOfImage fun _ =>
      Bytes.alignUp (added.virtualAddress + data.length) h.sectionAlignment
    .ok ⟨h.write file, added.virtualAddress⟩

/-- Put data at the end of the last section. -/
def extendLast (file : Bytes) (h : ImageHeaders) (sections : List Section) (data : Bytes) :
    Except Fault Grown :=
  match sections.getLast? with
  | none => .error noSections
  | some last =>
    if last.rawStart + last.rawSize < file.length then
      .error (.reconstruction "data follows the last section, cannot grow it")
    else
      let start := Bytes.alignNat last.virtualSize 4
      let virtualSize := start + data.length
      let rawSize := max (Bytes.alignNat virtualSize h.fileAlignment) last.rawSize
      let place := last.rawStart + start
      let file := Bytes.splice (Bytes.padTo file place) place (place + data.length) data
      let file := Bytes.padTo file (last.rawStart + rawSize)
      let block := Section.virtualSizeField.set virtualSize last.block
      let block := Section.rawSizeField.set rawSize block
      let block := Section.characteristicsField.set
        (last.characteristics ||| Section.mayRead : Nat) block
      let file := Bytes.splice file last.offset (last.offset + Section.headerSize) block
      let growth := (rawSize : Int) - last.rawSize
      let h :=
        if last.characteristics &&& Section.containsCode ≠ 0 then
          h.modifyOptional OptionalHeader.sizeOfCode (· + growth)
        else if last.characteristics &&& Section.containsData ≠ 0 then
          h.modifyOptional OptionalHeader.sizeOfInitializedData (· + growth)
        else h
      let h := h.modifyOptional OptionalHeader.sizeOfImage fun _ =>
        Bytes.alignUp (last.virtualAddress + virtualSize) h.sectionAlignment
      .ok ⟨h.write file, last.virtualAddress + start⟩

end Grown

end CilRestore
