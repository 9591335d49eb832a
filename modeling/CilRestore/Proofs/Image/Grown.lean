import CilRestore.Proofs.Image.Growing

/-!
# Grown images

What the two ways of growing make of any file whose headers can be read (`Grown.appendSection_eq`,
`Grown.extendLast_eq`): the file with the data and a section header in it, into which the headers
are pasted that count the growth. So they change certain fields, and what is behind the data
(`Grown.appendSection_frame`, `Grown.extendLast_frame`).
-/

namespace CilRestore.Grown

variable {file data : Bytes} {h : ImageHeaders} {sections : List Section}

/-! ### A new section -/

/-- A file with data of a section behind it and with the header of that section. -/
def appended (file data : Bytes) (added : Section) : Bytes :=
  Bytes.splice (Bytes.padTo file added.rawStart ++ Bytes.padTo data added.rawSize) added.offset
    (added.offset + Section.headerSize) added.block

section appended

variable {added : Section}

/-- The file with a new section holds its data and all that it held before. -/
theorem le_length_appended (file data : Bytes)
    (hblock : added.block.length = Section.headerSize) :
    added.rawStart + data.length ≤ (appended file data added).length ∧
      file.length ≤ (appended file data added).length := by
  have hle : (Bytes.padTo file added.rawStart ++ Bytes.padTo data added.rawSize).length ≤
      (appended file data added).length :=
    Bytes.le_length_splice (Nat.le_add_right _ _) (by omega)
  rw [List.length_append, Bytes.length_padTo, Bytes.length_padTo] at hle
  omega

/-- The old file is kept beside the new header. -/
theorem sameOn_appended (hblock : added.block.length = Section.headerSize) {start count : Nat}
    (hu : start + count ≤ file.length)
    (ha : start + count ≤ added.offset ∨ added.offset + Section.headerSize ≤ start) :
    Bytes.SameOn file (appended file data added) start count := by
  intro i hl hr
  have hlen := Bytes.length_padTo file added.rawStart
  rw [appended, Bytes.getElem?_splice_of_outside (Nat.le_add_right _ _) (by omega)
    (by rw [List.length_append]; omega) (by omega), List.getElem?_append_left (by omega),
    Bytes.getElem?_padTo (by omega)]

/-- It has the header of the section behind the others. -/
theorem slice_appended_header (hblock : added.block.length = Section.headerSize)
    (hslot : added.offset ≤ file.length) :
    Bytes.slice (appended file data added) added.offset Section.headerSize = added.block := by
  rw [← hblock]
  refine Bytes.slice_splice ?_ (Nat.le_add_right _ _) (by omega)
  rw [List.length_append, Bytes.length_padTo]
  omega

/-- It has the data where the header says. -/
theorem slice_appended_data (hblock : added.block.length = Section.headerSize)
    (hfile : file.length ≤ added.rawStart)
    (hslot : added.offset + Section.headerSize ≤ added.rawStart) :
    Bytes.slice (appended file data added) added.rawStart data.length = data := by
  have hpad : (Bytes.padTo file added.rawStart).length = added.rawStart := by
    rw [Bytes.length_padTo]
    omega
  have hdata := Bytes.length_padTo data added.rawSize
  rw [Bytes.slice_eq_iff]
  intro i hi
  rw [appended, Bytes.getElem?_splice_of_outside (Nat.le_add_right _ _) (by omega)
    (by rw [List.length_append]; omega) (by omega), List.getElem?_append_right (by omega), hpad,
    Nat.add_sub_cancel_left, Bytes.getElem?_padTo hi]

end appended

/-- The address of a section behind the last one. -/
def newAddress (h : ImageHeaders) (last : Section) : Nat :=
  Bytes.alignNat (last.virtualAddress + last.virtualSize) h.sectionAlignment

/-- A section of so many bytes at the end of a file. -/
def newSection (file : Bytes) (h : ImageHeaders) (last : Section) (size : Nat) : Section :=
  ⟨last.offset + Section.headerSize, newBlock size (newAddress h last)
    (Bytes.alignNat size h.fileAlignment) (Bytes.alignNat file.length h.fileAlignment)⟩

/-- Headers that count a new section. -/
def newHeaders (h : ImageHeaders) (added : Section) (size : Nat) : ImageHeaders :=
  let counted := (h.modifyFile FileHeader.numberOfSections (· + 1)).modifyOptional
    OptionalHeader.sizeOfCode (· + added.rawSize)
  counted.modifyOptional OptionalHeader.sizeOfImage fun _ =>
    Bytes.alignUp (added.virtualAddress + size) counted.sectionAlignment

/-- What putting data into a new section makes of a file. -/
theorem appendSection_eq (file : Bytes) (h : ImageHeaders) (data : Bytes) {last : Section}
    (hlast : sections.getLast? = some last) :
    appendSection file h sections data =
      .ok ⟨(newHeaders h (newSection file h last data.length) data.length).write
          (appended file data (newSection file h last data.length)),
        (newSection file h last data.length).virtualAddress⟩ := by
  have hcast : ((last.virtualAddress : Int) + last.virtualSize) =
      ((last.virtualAddress + last.virtualSize : Nat) : Int) := by omega
  unfold appendSection
  simp only [hlast, hcast, Bytes.alignUp_natCast]
  rfl

section newSection

variable {last : Section} {size : Nat}

theorem length_newSection (file : Bytes) (h : ImageHeaders) (last : Section) (size : Nat) :
    (newSection file h last size).block.length = Section.headerSize := length_newBlock _ _ _ _

/-- The header of a new section stands behind the table of sections. -/
theorem offset_newSection (hread : Section.readAll file = .ok (h, sections))
    (hlast : sections.getLast? = some last) (size : Nat) :
    (newSection file h last size).offset =
      h.tableStart + sections.length * Section.headerSize := by
  obtain ⟨init, hsplit⟩ := List.getLast?_eq_some_iff.mp hlast
  exact (Section.last_spec hread hsplit).1

/-- A new section stands behind the last one, in memory and in the file. -/
theorem newSection_fields (hpos : 0 < h.fileAlignment) (ha : newAddress h last < 2 ^ 32)
    (hz : Bytes.alignNat size h.fileAlignment < 2 ^ 32)
    (hs : Bytes.alignNat file.length h.fileAlignment < 2 ^ 32) :
    (newSection file h last size).statedVirtualSize = size ∧
      (newSection file h last size).virtualAddress = newAddress h last ∧
      (newSection file h last size).rawSize = Bytes.alignNat size h.fileAlignment ∧
      (newSection file h last size).rawStart = Bytes.alignNat file.length h.fileAlignment :=
  newBlock_fields _ (Nat.lt_of_le_of_lt (Bytes.le_alignNat size hpos) hz) ha hz hs

/-- The headers for a new section are an edit of those before. -/
theorem editOf_newHeaders (hedit : ImageHeaders.EditOf h h) (added : Section) (size : Nat) :
    ImageHeaders.EditOf h (newHeaders h added size) := by
  have hcode : OptionalHeader.sizeOfCode ∈ ImageHeaders.sizeFields := by decide
  have himage : OptionalHeader.sizeOfImage ∈ ImageHeaders.sizeFields := by decide
  unfold newHeaders
  exact ((hedit.addSections _).modifyOptional hcode _).modifyOptional himage _

/-- One more section is counted, unless that does not fit. -/
theorem sectionCount_newHeaders (hedit : ImageHeaders.EditOf h h) (few : h.sectionCount < 65535)
    (added : Section) (size : Nat) : (newHeaders h added size).sectionCount = h.sectionCount + 1 := by
  have hfit : FileHeader.numberOfSections.offset + FileHeader.numberOfSections.width ≤
      h.file.length := by
    rw [hedit.length_file]
    decide
  have hlt : h.sectionCount + 1 < 256 ^ FileHeader.numberOfSections.width := by
    rw [show 256 ^ FileHeader.numberOfSections.width = 65536 from rfl]
    omega
  exact Field.get_set_natCast hfit hlt

/-- The number of sections, the size of code and that of the image are all that differs. -/
theorem differsIn_newHeaders (hedit : ImageHeaders.EditOf h h) (added : Section) (size : Nat) :
    ImageHeaders.DiffersIn h (newHeaders h added size) [FileHeader.numberOfSections]
      [OptionalHeader.sizeOfCode, OptionalHeader.sizeOfImage] := by
  have hcode : OptionalHeader.sizeOfCode ∈ ImageHeaders.sizeFields := by decide
  have himage : OptionalHeader.sizeOfImage ∈ ImageHeaders.sizeFields := by decide
  have hcount := hedit.addSections (· + 1)
  have hcounted := hcount.modifyOptional hcode (· + (added.rawSize : Int))
  have hself : ImageHeaders.DiffersIn h h [FileHeader.numberOfSections]
      [OptionalHeader.sizeOfCode, OptionalHeader.sizeOfImage] := ⟨fun _ _ => rfl, fun _ _ => rfl⟩
  unfold newHeaders
  refine ((hself.modifyFile (by decide) ?_ _).modifyOptional (by decide)
    (hcount.sizeField_le hcode) _).modifyOptional (by decide) (hcounted.sizeField_le himage) _
  rw [hedit.length_file]
  decide

/-- The size of the image is where the new section ends, rounded up. -/
theorem sizeOfImage_newHeaders (hedit : ImageHeaders.EditOf h h) (added : Section) (size : Nat)
    (hlt : Bytes.alignNat (added.virtualAddress + size) h.sectionAlignment < 2 ^ 32) :
    OptionalHeader.sizeOfImage.get (newHeaders h added size).optional =
      Bytes.alignNat (added.virtualAddress + size) h.sectionAlignment := by
  have hcounted := (hedit.addSections (· + 1)).modifyOptional (f := OptionalHeader.sizeOfCode)
    (by decide) (· + (added.rawSize : Int))
  have hcast : (added.virtualAddress : Int) + size = (added.virtualAddress + size : Nat) := by omega
  unfold newHeaders
  simp only [hcounted.sectionAlignment_eq, hcast, Bytes.alignUp_natCast]
  exact Field.get_set_natCast (hcounted.sizeField_le (by decide)) hlt

end newSection

/-- The table of sections ends with the new one. -/
theorem listFrom_appended (hread : Section.readAll file = .ok (h, sections)) (hne : sections ≠ [])
    {added : Section} (hblock : added.block.length = Section.headerSize)
    (hplace : added.offset = h.tableStart + sections.length * Section.headerSize) :
    Section.listFrom (appended file data added) (sections.length + 1) h.tableStart =
      sections ++ [added] := by
  obtain ⟨-, -, hlen, hlist, hin⟩ := Section.readAll_cases hread
  have hin := hin hne
  rw [Section.listFrom_succ, ← hplace, slice_appended_header hblock (by omega),
    Section.listFrom_congr (sameOn_appended hblock (by omega) (by omega)), hlen, ← hlist]

/-- A new section changes counts, sizes and the place of its header, and makes no file shorter. -/
theorem appendSection_frame (hread : Section.readAll file = .ok (h, sections))
    (hopt : h.optionalSize ≤ OptionalHeader.size h.is64) {g : Grown}
    (hg : appendSection file h sections data = .ok g) :
    file.length ≤ g.data.length ∧ ∀ i < file.length, ¬ h.Counts i →
      (i < h.tableStart + sections.length * Section.headerSize ∨
        h.tableStart + sections.length * Section.headerSize + Section.headerSize ≤ i) →
      g.data[i]? = file[i]? := by
  have hne : sections ≠ [] := by
    rintro rfl
    cases hg
  obtain ⟨-, -, -, -, hin⟩ := Section.readAll_cases hread
  obtain ⟨-, last, -, hlast, hoffset, -⟩ := Section.exists_last hread hne
  have hgrow := appendSection_eq file h data hlast
  have hedit := editOf_newHeaders (Section.editOf_of_readAll hread)
    (newSection file h last data.length) data.length
  have hblock := length_newSection file h last data.length
  have hplace : (newSection file h last data.length).offset = last.offset + Section.headerSize := rfl
  generalize newSection file h last data.length = added at hgrow hedit hblock hplace
  rw [hg, Except.ok.injEq] at hgrow
  have hin := hin hne
  have hlong := (le_length_appended file data hblock).2
  have htable : h.tableStart ≤ file.length := by omega
  obtain ⟨hlength, hget⟩ := Section.getElem?_write hread hopt hedit (Nat.le_trans htable hlong)
  rw [hgrow]
  refine ⟨?_, fun i hi hcount hslot => ?_⟩
  · rw [hlength]
    exact hlong
  · rw [hget i (hedit.sameAt hcount)]
    split
    · rfl
    · exact (sameOn_appended hblock (by omega) (by omega)).byte_eq

/-! ### A longer last section -/

/-- A section with the header of another one but for the fields that growing changes. -/
structure Lengthens (last longer : Section) : Prop where
  /-- The headers stand at the same place. -/
  offset : longer.offset = last.offset
  /-- The header is as long as it has to be. -/
  length_block : longer.block.length = Section.headerSize
  /-- The bytes beside those fields are the same. -/
  keeps : ∀ i, (∀ f ∈ Section.extentFields, ¬ f.CoversAt 0 i) → longer.block[i]? = last.block[i]?

namespace Lengthens

variable {last longer : Section}

/-- The other fields say the same. -/
theorem get_eq (l : Lengthens last longer) {f : Field}
    (hf : ∀ g ∈ Section.extentFields, Bytes.Apart f.offset f.width g.offset g.width) :
    f.get longer.block = f.get last.block := by
  refine Bytes.SameOn.field_eq fun i hl hu => l.keeps i fun g hg hc => ?_
  have := hf g hg
  simp only [Bytes.Apart, Field.CoversAt] at this hc
  omega

theorem virtualAddress (l : Lengthens last longer) :
    longer.virtualAddress = last.virtualAddress := l.get_eq (by decide)

theorem rawStart (l : Lengthens last longer) : longer.rawStart = last.rawStart :=
  l.get_eq (by decide)

/-- Beside those fields the header holds what the file holds there. -/
theorem getElem?_block (l : Lengthens last longer) {file : Bytes}
    (hslice : last.block = Bytes.slice file last.offset Section.headerSize) {i : Nat}
    (hl : longer.offset ≤ i) (hu : i < longer.offset + Section.headerSize)
    (hextent : ¬ last.Extent i) : longer.block[i - longer.offset]? = file[i]? := by
  have hoffset := l.offset
  rw [l.keeps _ fun f hf hc => hextent ⟨f, hf, ?_⟩, hslice, Bytes.getElem?_slice,
    if_pos (by omega)]
  · congr 1
    omega
  · rw [Field.CoversAt] at hc ⊢
    omega

end Lengthens

/-- The last section with other sizes, to be read. -/
def lengthened (last : Section) (virtualSize rawSize : Nat) : Section :=
  ⟨last.offset, Section.characteristicsField.set (last.characteristics ||| Section.mayRead : Nat)
    (Section.rawSizeField.set rawSize (Section.virtualSizeField.set virtualSize last.block))⟩

/-- It differs in the fields that growing changes, and has the sizes that fit. -/
theorem lengthens_lengthened {last : Section} (hblock : last.block.length = Section.headerSize)
    (virtualSize rawSize : Nat) :
    Lengthens last (lengthened last virtualSize rawSize) ∧
      (virtualSize < 2 ^ 32 →
        (lengthened last virtualSize rawSize).statedVirtualSize = virtualSize) ∧
      (rawSize < 2 ^ 32 → (lengthened last virtualSize rawSize).rawSize = rawSize) := by
  have h1 := (Field.length_set (f := Section.virtualSizeField) (by rw [hblock]; decide)
    (virtualSize : Int)).trans hblock
  have h2 := (Field.length_set (f := Section.rawSizeField) (by rw [h1]; decide)
    (rawSize : Int)).trans h1
  have h3 := (Field.length_set (f := Section.characteristicsField) (by rw [h2]; decide)
    ((last.characteristics ||| Section.mayRead : Nat) : Int)).trans h2
  refine ⟨⟨rfl, h3, fun i hi => ?_⟩, fun hlt => ?_, fun hlt => ?_⟩
  · exact (Field.getElem?_set (by rw [h2]; decide) _ (hi _ (by decide))).trans
      ((Field.getElem?_set (by rw [h1]; decide) _ (hi _ (by decide))).trans
        (Field.getElem?_set (by rw [hblock]; decide) _ (hi _ (by decide))))
  · rw [Section.statedVirtualSize, lengthened,
      Field.get_set_of_apart (by rw [h2]; decide) _ (Or.inr (by decide)),
      Field.get_set_of_apart (by rw [h1]; decide) _ (Or.inr (by decide)),
      Field.get_set_natCast (by rw [hblock]; decide) hlt]
  · rw [Section.rawSize, lengthened,
      Field.get_set_of_apart (by rw [h2]; decide) _ (Or.inr (by decide)),
      Field.get_set_natCast (by rw [h1]; decide) hlt]

/-- A file with data put into it at a place, with zeros up to an end, and with the header of the
section that they extend. -/
def extended (file data : Bytes) (base stop : Nat) (longer : Section) : Bytes :=
  Bytes.splice
    (Bytes.padTo (Bytes.splice (Bytes.padTo file base) base (base + data.length) data) stop)
    longer.offset (longer.offset + Section.headerSize) longer.block

section extended

variable {last longer : Section} {base stop : Nat}

/-- What the header of the section goes into. -/
theorem le_length_put (file data : Bytes) (base : Nat) : max file.length (base + data.length) ≤
    (Bytes.splice (Bytes.padTo file base) base (base + data.length) data).length := by
  rw [Bytes.length_splice_of_le (by rw [Bytes.length_padTo]; omega) (by omega) (by omega),
    Bytes.length_padTo]
  omega

/-- The file with a longer section holds the data and all that it held before. -/
theorem le_length_extended (file data : Bytes) (base stop : Nat)
    (hblock : longer.block.length = Section.headerSize) :
    base + data.length ≤ (extended file data base stop longer).length ∧
      file.length ≤ (extended file data base stop longer).length := by
  have hput := le_length_put file data base
  have hle : (Bytes.padTo (Bytes.splice (Bytes.padTo file base) base (base + data.length) data)
      stop).length ≤ (extended file data base stop longer).length :=
    Bytes.le_length_splice (Nat.le_add_right _ _) (by omega)
  rw [Bytes.length_padTo] at hle
  omega

/-- It reaches as far as its last section. -/
theorem stop_le_length_extended (file data : Bytes) (base stop : Nat)
    (hblock : longer.block.length = Section.headerSize) :
    stop ≤ (extended file data base stop longer).length := by
  have hle : (Bytes.padTo (Bytes.splice (Bytes.padTo file base) base (base + data.length) data)
      stop).length ≤ (extended file data base stop longer).length :=
    Bytes.le_length_splice (Nat.le_add_right _ _) (by omega)
  rw [Bytes.length_padTo] at hle
  omega

/-- Between the old file and the data there are zeros. -/
theorem getElem?_extended_between (hblock : longer.block.length = Section.headerSize)
    (hin : longer.offset + Section.headerSize ≤ file.length) {i : Nat} (hl : file.length ≤ i)
    (hu : i < base) : (extended file data base stop longer)[i]? = some 0 := by
  have hput := le_length_put file data base
  have hpad := Bytes.length_padTo file base
  rw [extended, Bytes.getElem?_splice_of_outside (Nat.le_add_right _ _) (by omega)
    (by rw [Bytes.length_padTo]; omega) (by omega), Bytes.getElem?_padTo (by omega),
    Bytes.getElem?_splice_of_outside (Nat.le_add_right _ _) (by omega) (by omega) (by omega),
    Bytes.getElem?_padTo_behind hl hu]

/-- The old file is kept in front of the data, beside the extent of the section. -/
theorem sameOn_extended (l : Lengthens last longer)
    (hslice : last.block = Bytes.slice file last.offset Section.headerSize)
    {start count : Nat} (hin : longer.offset ≤ file.length) (hu : start + count ≤ file.length)
    (hb : start + count ≤ base)
    (hextent : ∀ i, start ≤ i → i < start + count → ¬ last.Extent i) :
    Bytes.SameOn file (extended file data base stop longer) start count := by
  intro i hl hr
  have hblock := l.length_block
  have hput := le_length_put file data base
  have hpad := Bytes.length_padTo file base
  rw [extended, Bytes.getElem?_splice (by rw [Bytes.length_padTo]; omega) (by omega) (by omega)]
  split
  · rw [l.getElem?_block hslice (by omega) (by omega) (hextent i hl hr)]
  · rw [Bytes.getElem?_padTo (by omega),
      Bytes.getElem?_splice_of_outside (Nat.le_add_right _ _) (by omega) (by omega) (by omega),
      Bytes.getElem?_padTo (by omega)]

/-- It has the header of the longer section. -/
theorem slice_extended_header (hblock : longer.block.length = Section.headerSize)
    (hin : longer.offset ≤ file.length) :
    Bytes.slice (extended file data base stop longer) longer.offset Section.headerSize =
      longer.block := by
  have hput := le_length_put file data base
  rw [← hblock]
  refine Bytes.slice_splice ?_ (Nat.le_add_right _ _) (by omega)
  rw [Bytes.length_padTo]
  omega

/-- It has the data behind those of the section before. -/
theorem slice_extended_data (hblock : longer.block.length = Section.headerSize)
    (hslot : longer.offset + Section.headerSize ≤ base) :
    Bytes.slice (extended file data base stop longer) base data.length = data := by
  have hput := le_length_put file data base
  have hpad := Bytes.length_padTo file base
  rw [Bytes.slice_eq_iff]
  intro i hi
  rw [extended, Bytes.getElem?_splice_of_outside (Nat.le_add_right _ _) (by omega)
    (by rw [Bytes.length_padTo]; omega) (by omega), Bytes.getElem?_padTo (by omega),
    Bytes.getElem?_splice (by omega) (by omega) (by omega), if_pos (by omega),
    Nat.add_sub_cancel_left]

end extended

/-- The bytes that the last section has in the file when data are put at its end. -/
def extendedSize (h : ImageHeaders) (last : Section) (count : Nat) : Nat :=
  max (Bytes.alignNat (Bytes.alignNat last.virtualSize 4 + count) h.fileAlignment) last.rawSize

/-- The last section with data put at its end. -/
def longerSection (h : ImageHeaders) (last : Section) (count : Nat) : Section :=
  lengthened last (Bytes.alignNat last.virtualSize 4 + count) (extendedSize h last count)

/-- Headers that count what a section grows by. -/
def countGrowth (h : ImageHeaders) (last : Section) (growth : Int) : ImageHeaders :=
  if last.characteristics &&& Section.containsCode ≠ 0 then
    h.modifyOptional OptionalHeader.sizeOfCode (· + growth)
  else if last.characteristics &&& Section.containsData ≠ 0 then
    h.modifyOptional OptionalHeader.sizeOfInitializedData (· + growth)
  else h

/-- Headers that count a longer last section. -/
def longerHeaders (h : ImageHeaders) (last : Section) (count : Nat) : ImageHeaders :=
  let counted := countGrowth h last (extendedSize h last count - last.rawSize)
  counted.modifyOptional OptionalHeader.sizeOfImage fun _ => Bytes.alignUp
    (last.virtualAddress + (Bytes.alignNat last.virtualSize 4 + count : Nat))
    counted.sectionAlignment

/-- What putting data at the end of the last section makes of a file. -/
theorem extendLast_eq (file : Bytes) (h : ImageHeaders) (data : Bytes) {last : Section}
    (hlast : sections.getLast? = some last) :
    extendLast file h sections data =
      if last.rawStart + last.rawSize < file.length then
        .error (.reconstruction "data follows the last section, cannot grow it")
      else .ok ⟨(longerHeaders h last data.length).write
          (extended file data (last.rawStart + Bytes.alignNat last.virtualSize 4)
            (last.rawStart + extendedSize h last data.length) (longerSection h last data.length)),
        last.virtualAddress + Bytes.alignNat last.virtualSize 4⟩ := by
  unfold extendLast
  simp only [hlast]
  rfl

section longerSection

variable {last : Section} {count : Nat}

/-- The longer section differs from the one before in its extent. -/
theorem lengthens_longerSection (hblock : last.block.length = Section.headerSize) (h : ImageHeaders)
    (count : Nat) : Lengthens last (longerSection h last count) :=
  (lengthens_lengthened hblock _ _).1

/-- A longer section ends behind the data, in memory and in the file, and no sooner than before. -/
theorem longerSection_sizes (hblock : last.block.length = Section.headerSize)
    (hpos : 0 < h.fileAlignment)
    (hlt : Bytes.alignNat (Bytes.alignNat last.virtualSize 4 + count) h.fileAlignment < 2 ^ 32) :
    (longerSection h last count).statedVirtualSize = Bytes.alignNat last.virtualSize 4 + count ∧
      (longerSection h last count).rawSize = extendedSize h last count ∧
      Bytes.alignNat last.virtualSize 4 + count ≤ extendedSize h last count ∧
      last.rawSize ≤ extendedSize h last count := by
  have hle := Bytes.le_alignNat (Bytes.alignNat last.virtualSize 4 + count) hpos
  have hraw : last.rawSize < 256 ^ 4 := Section.rawSizeField.get_lt last.block
  have hsize : extendedSize h last count < 2 ^ 32 := by
    rw [extendedSize]
    omega
  obtain ⟨-, hstated, hrawSize⟩ := lengthens_lengthened hblock
    (Bytes.alignNat last.virtualSize 4 + count) (extendedSize h last count)
  refine ⟨hstated (by omega), hrawSize hsize, ?_, Nat.le_max_right _ _⟩
  rw [extendedSize]
  omega

/-- Counting the growth of a section is an edit of the headers. -/
theorem editOf_countGrowth (hedit : ImageHeaders.EditOf h h) (last : Section) (growth : Int) :
    ImageHeaders.EditOf h (countGrowth h last growth) := by
  unfold countGrowth
  split
  · exact hedit.modifyOptional (by decide) _
  split
  · exact hedit.modifyOptional (by decide) _
  · exact hedit

/-- The headers for a longer section are an edit of those before. -/
theorem editOf_longerHeaders (hedit : ImageHeaders.EditOf h h) (last : Section) (count : Nat) :
    ImageHeaders.EditOf h (longerHeaders h last count) := by
  have himage : OptionalHeader.sizeOfImage ∈ ImageHeaders.sizeFields := by decide
  unfold longerHeaders
  exact (editOf_countGrowth hedit last _).modifyOptional himage _

/-- A longer section is no other one. -/
theorem sectionCount_longerHeaders (h : ImageHeaders) (last : Section) (count : Nat) :
    (longerHeaders h last count).sectionCount = h.sectionCount := by
  have hfile (growth : Int) : (countGrowth h last growth).file = h.file := by
    unfold countGrowth
    split
    · rfl
    split
    · rfl
    · rfl
  exact congrArg FileHeader.numberOfSections.get (hfile _)

/-- The size that counts what the section holds, if one does, and the size of the image are all that
differs. -/
theorem differsIn_longerHeaders (hedit : ImageHeaders.EditOf h h) (last : Section) (count : Nat) :
    ImageHeaders.DiffersIn h (longerHeaders h last count) []
      (last.countedIn ++ [OptionalHeader.sizeOfImage]) := by
  have hself (fields : List Field) : ImageHeaders.DiffersIn h h [] fields :=
    ⟨fun _ _ => rfl, fun _ _ => rfl⟩
  have hcode : OptionalHeader.sizeOfCode ∈ ImageHeaders.sizeFields := by decide
  have hinit : OptionalHeader.sizeOfInitializedData ∈ ImageHeaders.sizeFields := by decide
  have hcounted (growth : Int) : ImageHeaders.DiffersIn h (countGrowth h last growth) []
      (last.countedIn ++ [OptionalHeader.sizeOfImage]) := by
    rw [Section.countedIn, countGrowth]
    by_cases hc : last.characteristics &&& Section.containsCode ≠ 0
    · rw [if_pos hc, if_pos hc]
      exact (hself _).modifyOptional List.mem_cons_self (hedit.sizeField_le hcode) _
    rw [if_neg hc, if_neg hc]
    by_cases hd : last.characteristics &&& Section.containsData ≠ 0
    · rw [if_pos hd, if_pos hd]
      exact (hself _).modifyOptional List.mem_cons_self (hedit.sizeField_le hinit) _
    · rw [if_neg hd, if_neg hd]
      exact hself _
  unfold longerHeaders
  exact (hcounted _).modifyOptional (List.mem_append_right _ (List.mem_singleton_self _))
    ((editOf_countGrowth hedit last _).sizeField_le (by decide)) _

/-- The size of the image is where the longer section ends, rounded up. -/
theorem sizeOfImage_longerHeaders (hedit : ImageHeaders.EditOf h h) (last : Section) (count : Nat)
    (hlt : Bytes.alignNat (last.virtualAddress + (Bytes.alignNat last.virtualSize 4 + count))
      h.sectionAlignment < 2 ^ 32) :
    OptionalHeader.sizeOfImage.get (longerHeaders h last count).optional =
      Bytes.alignNat (last.virtualAddress + (Bytes.alignNat last.virtualSize 4 + count))
        h.sectionAlignment := by
  have hcounted := editOf_countGrowth hedit last (extendedSize h last count - last.rawSize)
  have hcast : (last.virtualAddress : Int) + (Bytes.alignNat last.virtualSize 4 + count : Nat) =
      (last.virtualAddress + (Bytes.alignNat last.virtualSize 4 + count) : Nat) := by omega
  unfold longerHeaders
  simp only [hcounted.sectionAlignment_eq, hcast, Bytes.alignUp_natCast]
  exact Field.get_set_natCast (hcounted.sizeField_le (by decide)) hlt

end longerSection

/-- The table of sections ends with the longer one. -/
theorem listFrom_extended {init : List Section} {last longer : Section} {base stop : Nat}
    (hsplit : sections = init ++ [last])
    (hoffset : last.offset + Section.headerSize =
      h.tableStart + sections.length * Section.headerSize)
    (hinit : init = Section.listFrom file init.length h.tableStart)
    (hslice : last.block = Bytes.slice file last.offset Section.headerSize)
    (l : Lengthens last longer)
    (hin : h.tableStart + sections.length * Section.headerSize ≤ file.length)
    (hbase : h.tableStart + sections.length * Section.headerSize ≤ base) :
    Section.listFrom (extended file data base stop longer) sections.length h.tableStart =
      init ++ [longer] := by
  have hlength : sections.length = init.length + 1 := by simp [hsplit]
  have hplace := l.offset
  rw [hlength, Nat.succ_mul] at hoffset hin hbase
  have hslot : h.tableStart + init.length * Section.headerSize = longer.offset := by omega
  have hfront : Bytes.SameOn file (extended file data base stop longer) h.tableStart
      (init.length * Section.headerSize) :=
    sameOn_extended l hslice (by omega) (by omega) (by omega)
      fun i hl hu hi => by have := hi.inside_header; omega
  rw [hlength, Section.listFrom_succ, hslot, slice_extended_header l.length_block (by omega),
    Section.listFrom_congr hfront, ← hinit]

/-- A longer last section changes counts, sizes, the extent of that section and what is behind its
data, and makes no file shorter. -/
theorem extendLast_frame (hread : Section.readAll file = .ok (h, sections))
    (hopt : h.optionalSize ≤ OptionalHeader.size h.is64) {g : Grown}
    (hg : extendLast file h sections data = .ok g) :
    file.length ≤ g.data.length ∧ ∀ i < file.length, ¬ h.Counts i →
      (∀ last ∈ sections.getLast?, ¬ last.Extent i ∧ i < last.rawStart + last.virtualSize) →
      g.data[i]? = file[i]? := by
  have hne : sections ≠ [] := by
    rintro rfl
    cases hg
  obtain ⟨-, -, -, -, hin⟩ := Section.readAll_cases hread
  obtain ⟨-, last, -, hlast, hoffset, hslice, hlastblock, -⟩ := Section.exists_last hread hne
  have hlengthens := lengthens_longerSection hlastblock h data.length
  have hedit := editOf_longerHeaders (Section.editOf_of_readAll hread) last data.length
  have hgrow := extendLast_eq file h data hlast
  rw [hg] at hgrow
  split at hgrow
  · cases hgrow
  rw [Except.ok.injEq] at hgrow
  generalize longerSection h last data.length = longer at *
  generalize longerHeaders h last data.length = h' at *
  have hin := hin hne
  have hplace := hlengthens.offset
  have hvsize := Bytes.le_alignNat last.virtualSize (by decide : 0 < 4)
  generalize hbase : last.rawStart + Bytes.alignNat last.virtualSize 4 = base at hgrow
  generalize last.rawStart + extendedSize h last data.length = stop at hgrow
  have hlong : file.length ≤ (extended file data base stop longer).length :=
    (le_length_extended file data base stop hlengthens.length_block).2
  have htable : h.tableStart ≤ file.length := by omega
  obtain ⟨hlength, hget⟩ := Section.getElem?_write hread hopt hedit (Nat.le_trans htable hlong)
  rw [hgrow]
  refine ⟨?_, fun i hi hcount hextent => ?_⟩
  · rw [hlength]
    exact hlong
  · obtain ⟨hextent, hbehind⟩ := hextent last hlast
    rw [hget i (hedit.sameAt hcount)]
    split
    · rfl
    · refine (sameOn_extended hlengthens hslice (by omega) (by omega) (by omega) ?_).byte_eq
      intro j hl hu
      rwa [show j = i by omega]

end CilRestore.Grown
