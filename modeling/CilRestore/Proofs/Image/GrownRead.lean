import CilRestore.Proofs.Image.Grown

/-!
# What a grown image is read as

New data are found at the RVA that growing answers when the file is read anew, and what the sections
had is found where it was. For a new section that takes an image behind which it fits
(`Grown.appendSection_appends`), and for a longer last one that this one is last in memory and in
the file (`Grown.extendLast_extends`). An arranged image that is growable is both, so it carries
what is put into it (`Grown.appendSection_carries`, `Grown.extendLast_carries`).
-/

namespace CilRestore.Grown

variable {file data : Bytes} {h : ImageHeaders} {sections : List Section}

/-- Counts and sizes are among the fields that growing may change. -/
theorem counts_of_inFields {inFile inOptional : List Field} {place : Nat}
    (hf : ∀ f ∈ inFile, f = FileHeader.numberOfSections)
    (ho : ∀ f ∈ inOptional, f ∈ ImageHeaders.sizeFields)
    (hp : h.InFields inFile inOptional place) : h.Counts place := by
  rcases hp with ⟨f, hm, hc⟩ | ⟨hin, f, hm, hc⟩
  · exact Or.inl (hf f hm ▸ hc)
  · exact Or.inr ⟨hin, f, ho f hm, hc⟩

/-! ### A new section -/

/-- A new section of so many bytes fits behind the last one, and what its header says does. -/
@[mk_iff]
structure FitsBehind (file : Bytes) (h : ImageHeaders) (sections : List Section) (last : Section)
    (size : Nat) : Prop where
  /-- The optional header is no longer than its form. -/
  optional_le : h.optionalSize ≤ OptionalHeader.size h.is64
  /-- Addresses are multiples of something. -/
  sectionAlignment : 0 < h.sectionAlignment
  /-- So are file offsets. -/
  fileAlignment : 0 < h.fileAlignment
  /-- One more section can be counted. -/
  few : sections.length < 65535
  /-- No section takes addresses from the file at the new one or behind it. -/
  below : ∀ s ∈ sections, s.virtualAddress + s.rawSize ≤ newAddress h last
  /-- The new section header ends in front of the new data. -/
  slot : h.tableStart + (sections.length + 1) * Section.headerSize ≤
    Bytes.alignNat file.length h.fileAlignment
  /-- The fields that change do not lie over the place of the new headers, which the old one
  states. -/
  clear : ∀ place < 64, 60 ≤ place → ¬ h.InFields [FileHeader.numberOfSections]
    [OptionalHeader.sizeOfCode, OptionalHeader.sizeOfImage] place
  /-- The address of the section fits. -/
  address_lt : newAddress h last < 2 ^ 32
  /-- Its place in the file fits. -/
  place_lt : Bytes.alignNat file.length h.fileAlignment < 2 ^ 32
  /-- Its size fits. -/
  size_lt : Bytes.alignNat size h.fileAlignment < 2 ^ 32

instance (file : Bytes) (h : ImageHeaders) (sections : List Section) (last : Section)
    (size : Nat) : Decidable (FitsBehind file h sections last size) :=
  decidable_of_iff _ (fitsBehind_iff file h sections last size).symm

/-- A file that has data in a section of their own, at a file offset. -/
structure Appends (file data : Bytes) (h : ImageHeaders) (sections : List Section) (g : Grown)
    (h' : ImageHeaders) (added : Section) (base : Nat) : Prop where
  /-- The table of sections has one more. -/
  read : Section.readAll g.data = .ok (h', sections ++ [added])
  /-- It stands where it stood. -/
  table_eq : h'.tableStart = h.tableStart
  /-- The RVAs of the data lead to them. -/
  leads : ∀ i < data.length,
    Section.offsetOf? (sections ++ [added]) ((g.rva + i : Nat) : Int) = some (base + i) ∧
      g.data[base + i]? = data[i]?
  /-- They are inside the file. -/
  reaches : base + data.length ≤ g.data.length
  /-- RVAs lead where they led. -/
  maps : ∀ (rva : Int) (offset : Nat), Section.offsetOf? sections rva = some offset →
    Section.offsetOf? (sections ++ [added]) rva = some offset
  /-- What is behind the table of sections stays. -/
  keeps : ∀ i < file.length, h.tableStart + (sections.length + 1) * Section.headerSize ≤ i →
    g.data[i]? = file[i]?
  /-- The section starts at the RVA of the data. -/
  address_eq : added.virtualAddress = g.rva
  /-- It has as many bytes in memory as there are data. -/
  stated_eq : added.statedVirtualSize = data.length
  /-- The size of the image covers it, if the file has that field and the size fits. -/
  covers : OptionalHeader.sizeOfImage.offset + OptionalHeader.sizeOfImage.width ≤ h.optionalSize →
    Bytes.alignNat (g.rva + data.length) h.sectionAlignment < 2 ^ 32 →
    g.rva + data.length ≤ OptionalHeader.sizeOfImage.get h'.optional

/-- A file with a new section that fits is read with that section behind the others. -/
theorem readAll_appended (hread : Section.readAll file = .ok (h, sections)) {last : Section}
    (hlast : sections.getLast? = some last) (fits : FitsBehind file h sections last data.length) :
    let added := newSection file h last data.length
    let h' := newHeaders h added data.length
    let grown := h'.write (appended file data added)
    (∃ h'', Section.readAll grown = .ok (h'', sections ++ [added]) ∧
      h''.tableStart = h.tableStart ∧ ImageHeaders.Agrees h' h'') ∧
    grown.length = (appended file data added).length ∧
    ∀ i, h.tableStart ≤ i → grown[i]? = (appended file data added)[i]? := by
  intro added h' grown
  have hne : sections ≠ [] := by
    rintro rfl
    cases hlast
  obtain ⟨hstand, -, hlen, -, hin⟩ := Section.readAll_cases hread
  have hin := hin hne
  have hpos : Section.headerSize ≤ sections.length * Section.headerSize :=
    Nat.le_mul_of_pos_left _ (List.length_pos_iff.mpr hne)
  have hheader : Section.headerSize = 40 := rfl
  have htable : h.tableStart = h.start + 4 + FileHeader.size + h.optionalSize := rfl
  have hfsize : FileHeader.size = 20 := rfl
  have hold := hstand.old
  have hosize : ImageHeaders.oldHeaderSize = 64 := rfl
  have hblock : added.block.length = Section.headerSize := length_newSection file h last data.length
  have hplace : added.offset = h.tableStart + sections.length * Section.headerSize :=
    offset_newSection hread hlast data.length
  have hself := Section.editOf_of_readAll hread
  have hedit : ImageHeaders.EditOf h h' := editOf_newHeaders hself added data.length
  have hcount : h'.sectionCount = sections.length + 1 := by
    rw [hlen]
    exact sectionCount_newHeaders hself (by rw [← hlen]; exact fits.few) added data.length
  have hlong := (le_length_appended file data hblock).2
  have hreach := (le_length_appended file data hblock).1
  have hslot := fits.slot
  have hstart : added.rawStart = Bytes.alignNat file.length h.fileAlignment :=
    (newSection_fields fits.fileAlignment fits.address_lt fits.size_lt fits.place_lt).2.2.2
  have hbeside : ∀ start count, start + count ≤ file.length → start + count ≤ added.offset →
      Bytes.SameOn file (appended file data added) start count := fun start count hu ha =>
    sameOn_appended hblock hu (Or.inl ha)
  have hplaced : Bytes.SameOn file grown 60 4 :=
    Section.sameOn_write hread fits.optional_le hedit (by omega)
      (fun i hl hu => (differsIn_newHeaders hself added data.length).sameAt (fits.clear i hu hl))
      (hbeside _ _ (by omega) (by omega))
  have hwritten := Section.readAll_write hread fits.optional_le hedit hlong
    (hbeside _ _ (by omega) (by omega)) hplaced (by rw [hcount]; omega)
  rwa [hcount, listFrom_appended hread hne hblock hplace] at hwritten

/-- Data get a section of their own at the end of the file. -/
theorem appendSection_appends (hread : Section.readAll file = .ok (h, sections)) {last : Section}
    (hlast : sections.getLast? = some last) (fits : FitsBehind file h sections last data.length) :
    ∃ g h' added, appendSection file h sections data = .ok g ∧ g.rva = newAddress h last ∧
      Appends file data h sections g h' added (Bytes.alignNat file.length h.fileAlignment) := by
  obtain ⟨⟨h'', hread', htable, hagrees⟩, hlength, hbehind⟩ := readAll_appended hread hlast fits
  have hgrow := appendSection_eq file h data hlast
  obtain ⟨hstated, hva, hraw, hstart⟩ :=
    newSection_fields fits.fileAlignment fits.address_lt fits.size_lt fits.place_lt
  have hblock := length_newSection file h last data.length
  have hplace := offset_newSection hread hlast data.length
  have hself := Section.editOf_of_readAll hread
  generalize newSection file h last data.length = added at *
  have hsize := (editOf_newHeaders hself added data.length).optionalSize_eq
  have himage := sizeOfImage_newHeaders hself added data.length
  generalize newHeaders h added data.length = h' at *
  have hlong := le_length_appended file data hblock
  have hlefile := Bytes.le_alignNat file.length fits.fileAlignment
  have hledata := Bytes.le_alignNat data.length fits.fileAlignment
  have hslot := fits.slot
  rw [Nat.succ_mul] at hslot
  refine ⟨_, h'', added, hgrow, hva, {
    read := hread'
    table_eq := htable
    leads := fun i hi => ⟨Section.offsetOf?_concat_add (hva ▸ fits.below) (Nat.le_refl _)
      (by omega) (by omega) hi, ?_⟩
    reaches := ?_
    maps := fun rva offset hm => ?_
    keeps := fun i hi hl => ?_
    address_eq := rfl
    stated_eq := hstated
    covers := fun hfield hlt => ?_ }⟩
  · rw [hbehind _ (by omega), ← hstart]
    exact Bytes.slice_eq_iff.mp (slice_appended_data hblock (by omega) (by omega)) i hi
  · simp only
    omega
  · rw [Section.offsetOf?_append, hm, Option.some_or]
  · rw [Nat.succ_mul] at hl
    rw [hbehind _ (by omega)]
    exact (sameOn_appended hblock (by omega) (Or.inr (by omega))).byte_eq
  · rw [hagrees.get_eq (by rw [hsize]; exact hfield), himage hlt]
    exact Bytes.le_alignNat _ fits.sectionAlignment

/-- Where another section header can be added, it ends in front of what sections have in the file.
-/
theorem slot_le_of_canAdd (arranged : ArrangedImage file h sections)
    (hadd : canAddSection file h sections = true) :
    ∀ s ∈ sections, s.rawSize ≠ 0 →
      h.tableStart + (sections.length + 1) * Section.headerSize ≤ s.rawStart := by
  intro s hs hz
  have hheader : Section.headerSize = 40 := rfl
  have hpos : Section.headerSize ≤ sections.length * Section.headerSize :=
    Nat.le_mul_of_pos_left _ (List.length_pos_of_mem hs)
  have hin := arranged.inside s hs hz
  have hlimit := headerLimit_le h hs hz (by omega)
  simp only [canAddSection, Bool.and_eq_true, decide_eq_true_eq] at hadd
  rw [Nat.succ_mul]
  omega

/-- A new section fits behind the last one of an arranged image that is growable and has room. -/
theorem fitsBehind_of_arranged (arranged : ArrangedImage file h sections)
    (growable : Growable h sections) {size : Nat} (room : HasRoom file h sections size)
    (hadd : canAddSection file h sections = true) (hdata : ∃ s ∈ sections, s.rawSize ≠ 0)
    {init : List Section} {last : Section} (hsplit : sections = init ++ [last]) :
    FitsBehind file h sections last size := by
  have hlast : sections.getLast? = some last := by rw [hsplit, List.getLast?_concat]
  obtain ⟨first, hfirst, hsize⟩ := hdata
  have hinside := arranged.inside first hfirst hsize
  have hfit := slot_le_of_canAdd arranged hadd first hfirst hsize
  have hlefile := Bytes.le_alignNat file.length arranged.fileAlignment.1
  exact {
    optional_le := arranged.optional_le
    sectionAlignment := arranged.sectionAlignment.1
    fileAlignment := arranged.fileAlignment.1
    few := arranged.few
    below := fun s hs => by
      have hend := growable.last last hlast
      rw [hsplit, List.mem_append, List.mem_singleton] at hs
      rw [newAddress]
      rcases hs with hs | rfl
      · have := arranged.le_last hsplit hs
        omega
      · exact hend
    slot := by omega
    clear := fun place hu hl hp => (growable.clear place hu hl).1
      (counts_of_inFields (by decide) (by decide) hp)
    address_lt := room.address last hlast
    place_lt := room.place
    size_lt := room.size_lt }

/-- An image with a new section carries what was put into it. -/
theorem appendSection_carries (arranged : ArrangedImage file h sections)
    (growable : Growable h sections) (room : HasRoom file h sections data.length)
    (hadd : canAddSection file h sections = true) (hdata : ∃ s ∈ sections, s.rawSize ≠ 0) :
    ∃ g h' sections' base, appendSection file h sections data = .ok g ∧
      Carries file sections data g h' sections' base := by
  have ⟨first, hfirst, _⟩ := hdata
  obtain ⟨init, last, hsplit, hlast, -⟩ :=
    Section.exists_last arranged.read (List.ne_nil_of_mem hfirst)
  have fits := fitsBehind_of_arranged arranged growable room hadd hdata hsplit
  obtain ⟨g, h', added, hgrow, hrva, appends⟩ := appendSection_appends arranged.read hlast fits
  have hheader : Section.headerSize = 40 := rfl
  have hlefile := Bytes.le_alignNat file.length arranged.fileAlignment.1
  have hslot := slot_le_of_canAdd arranged hadd
  have hreaches := appends.reaches
  refine ⟨g, h', sections ++ [added], _, hgrow, {
    read := appends.read
    addressed := ?_
    positive := fun hall => ?_
    aligned := fun _ => Nat.dvd_trans arranged.fileAlignment.2
      (Bytes.dvd_alignNat _ arranged.fileAlignment.1)
    holds := Bytes.slice_eq_iff.mpr fun i hi => (appends.leads i hi).2
    leads := fun place hp => (appends.leads place hp).1
    maps := appends.maps
    keeps := fun start count ho i hl hu => ?_
    apart := fun start count hc ho => Or.inr ?_
    front := fun start count hc ho => ?_
    inside := fun start count hc ho => ?_ }⟩
  · rw [hrva]
    exact Nat.dvd_trans arranged.sectionAlignment.2
      (Bytes.dvd_alignNat _ arranged.sectionAlignment.1)
  · have := hall first hfirst
    have := fits.below first hfirst
    omega
  · have hin := arranged.owned (by omega) ho
    obtain ⟨s, hs, hstart, hstop⟩ := ho
    have := hslot s hs (by omega)
    exact appends.keeps i (by omega) (by omega)
  · have := (arranged.owned hc ho).2
    omega
  · obtain ⟨s, hs, hstart, hstop⟩ := ho
    have := hslot s hs (by omega)
    rw [appends.table_eq, List.length_append, List.length_singleton]
    omega
  · have := (arranged.owned hc ho).2
    omega

/-! ### A longer last section -/

/-- The last section is last in memory and in the file, and its size does fit when so many bytes are
added. -/
@[mk_iff]
structure FitsAtEnd (h : ImageHeaders) (sections : List Section) (size : Nat) : Prop where
  /-- The optional header is no longer than its form. -/
  optional_le : h.optionalSize ≤ OptionalHeader.size h.is64
  /-- Addresses are multiples of something. -/
  sectionAlignment : 0 < h.sectionAlignment
  /-- So are sizes in the file. -/
  fileAlignment : 0 < h.fileAlignment
  /-- The table of sections lies in front of all their data. -/
  front : ∀ s ∈ sections, s.rawSize ≠ 0 →
    h.tableStart + sections.length * Section.headerSize ≤ s.rawStart
  /-- No other section takes addresses from the file behind the last one. -/
  below : ∀ last ∈ sections.getLast?, ∀ s ∈ sections.dropLast,
    s.virtualAddress + s.rawSize ≤ last.virtualAddress + Bytes.alignNat last.virtualSize 4
  /-- No other section has data in the file behind the start of the last one. -/
  behind : ∀ last ∈ sections.getLast?, ∀ s ∈ sections.dropLast, s.rawSize = 0 ∨ last.rawSize = 0 ∨
    s.rawStart + s.rawSize ≤ last.rawStart
  /-- The size of the last section fits. -/
  size_lt : ∀ last ∈ sections.getLast?,
    Bytes.alignNat (Bytes.alignNat last.virtualSize 4 + size) h.fileAlignment < 2 ^ 32

instance (h : ImageHeaders) (sections : List Section) (size : Nat) :
    Decidable (FitsAtEnd h sections size) :=
  decidable_of_iff _ (fitsAtEnd_iff h sections size).symm

/-- A file whose last section got longer by some data, which stand at a place in it. -/
structure Extends (file data : Bytes) (h : ImageHeaders) (init : List Section) (last : Section)
    (g : Grown) (h' : ImageHeaders) (longer : Section) (base : Nat) : Prop where
  /-- The last section header is another one, and the others are the same. -/
  read : Section.readAll g.data = .ok (h', init ++ [longer])
  /-- The table of sections stands where it stood. -/
  table_eq : h'.tableStart = h.tableStart
  /-- The RVAs of the data lead to them. -/
  leads : ∀ i < data.length,
    Section.offsetOf? (init ++ [longer]) ((g.rva + i : Nat) : Int) = some (base + i) ∧
      g.data[base + i]? = data[i]?
  /-- RVAs lead where they led. -/
  maps : ∀ (rva : Int) (offset : Nat), Section.offsetOf? (init ++ [last]) rva = some offset →
    Section.offsetOf? (init ++ [longer]) rva = some offset
  /-- What a section has in memory is what it had. -/
  keeps : ∀ s ∈ init ++ [last], ∀ i < min s.rawSize s.virtualSize,
    s.rawStart + i < file.length → g.data[s.rawStart + i]? = file[s.rawStart + i]?
  /-- Between the old file and the data there are zeros. -/
  zeros : ∀ i, file.length ≤ i → i < base → g.data[i]? = some 0
  /-- The section ends in memory where the data do. -/
  ends : longer.virtualAddress + longer.statedVirtualSize = g.rva + data.length
  /-- It takes no less in the file. -/
  stated_le : longer.statedVirtualSize ≤ longer.rawSize
  /-- Nor less than before. -/
  rawSize_le : last.rawSize ≤ longer.rawSize
  /-- The file is as long as it says. -/
  reaches : longer.rawStart + longer.rawSize ≤ g.data.length
  /-- It gets no shorter. -/
  length_le : file.length ≤ g.data.length
  /-- The size of the image covers it, if the file has that field and the size fits. -/
  covers : OptionalHeader.sizeOfImage.offset + OptionalHeader.sizeOfImage.width ≤ h.optionalSize →
    Bytes.alignNat (g.rva + data.length) h.sectionAlignment < 2 ^ 32 →
    longer.virtualAddress + longer.statedVirtualSize ≤ OptionalHeader.sizeOfImage.get h'.optional

/-- The last section, when nothing follows it in the file, starts behind the table of sections. -/
theorem FitsAtEnd.table_le {size : Nat} (fits : FitsAtEnd h sections size)
    (hread : Section.readAll file = .ok (h, sections)) {last : Section}
    (hlast : sections.getLast? = some last) (hend : file.length ≤ last.rawStart + last.rawSize) :
    h.tableStart + sections.length * Section.headerSize ≤ last.rawStart := by
  have hmem := List.mem_of_getLast? hlast
  obtain ⟨-, -, -, -, hin⟩ := Section.readAll_cases hread
  rcases Nat.eq_zero_or_pos last.rawSize with hz | hz
  · have := hin (List.ne_nil_of_mem hmem)
    omega
  · exact fits.front last hmem (by omega)

/-- What a section has in memory lies behind the table of sections, and in front of the end of the
last one in memory. -/
theorem FitsAtEnd.between {size : Nat} (fits : FitsAtEnd h sections size) {last s : Section}
    (hlast : sections.getLast? = some last) (hend : file.length ≤ last.rawStart + last.rawSize)
    (hs : s ∈ sections) {i : Nat} (hi : i < min s.rawSize s.virtualSize)
    (hinside : s.rawStart + i < file.length) :
    h.tableStart + sections.length * Section.headerSize ≤ s.rawStart ∧
      s.rawStart + i < last.rawStart + Bytes.alignNat last.virtualSize 4 := by
  refine ⟨fits.front s hs (by omega), ?_⟩
  have hvsize := Bytes.le_alignNat last.virtualSize (by decide : 0 < 4)
  rw [← List.dropLast_append_getLast? last hlast, List.mem_append, List.mem_singleton] at hs
  rcases hs with hs | rfl
  · rcases fits.behind last hlast s hs with hz | hz | hz <;> omega
  · omega

/-- A file with a longer last section is read with that section in the place of the last one. -/
theorem readAll_extended (hread : Section.readAll file = .ok (h, sections))
    (fits : FitsAtEnd h sections data.length) {init : List Section} {last : Section}
    (hsplit : sections = init ++ [last])
    (clear : ∀ place < 64, 60 ≤ place →
      ¬ h.InFields [] (last.countedIn ++ [OptionalHeader.sizeOfImage]) place ∧ ¬ last.Extent place)
    (hend : file.length ≤ last.rawStart + last.rawSize) (stop : Nat) :
    let longer := longerSection h last data.length
    let h' := longerHeaders h last data.length
    let changed := extended file data (last.rawStart + Bytes.alignNat last.virtualSize 4) stop longer
    (∃ h'', Section.readAll (h'.write changed) = .ok (h'', init ++ [longer]) ∧
      h''.tableStart = h.tableStart ∧ ImageHeaders.Agrees h' h'') ∧
    (h'.write changed).length = changed.length ∧
    ∀ i, h.tableStart ≤ i → (h'.write changed)[i]? = changed[i]? := by
  intro longer h' changed
  have hne : sections ≠ [] := by simp [hsplit]
  have hlast : sections.getLast? = some last := by rw [hsplit, List.getLast?_concat]
  obtain ⟨hoffset, hslice, hblock, hinit⟩ := Section.last_spec hread hsplit
  obtain ⟨hstand, -, hlen, -, hin⟩ := Section.readAll_cases hread
  have hin := hin hne
  have hfront := fits.table_le hread hlast hend
  have hpos : Section.headerSize ≤ sections.length * Section.headerSize :=
    Nat.le_mul_of_pos_left _ (List.length_pos_iff.mpr hne)
  have hheader : Section.headerSize = 40 := rfl
  have hfsize : FileHeader.size = 20 := rfl
  have htable : h.tableStart = h.start + 4 + FileHeader.size + h.optionalSize := rfl
  have hold := hstand.old
  have hosize : ImageHeaders.oldHeaderSize = 64 := rfl
  have hself := Section.editOf_of_readAll hread
  have hedit : ImageHeaders.EditOf h h' := editOf_longerHeaders hself last data.length
  have hcount : h'.sectionCount = sections.length :=
    (sectionCount_longerHeaders h last data.length).trans hlen.symm
  have hlengthens : Lengthens last longer := lengthens_longerSection hblock h data.length
  have hplace := hlengthens.offset
  have hlong : file.length ≤ changed.length :=
    (le_length_extended file data _ stop hlengthens.length_block).2
  have hform : Bytes.SameOn file changed 0 (h.start + 4 + FileHeader.size + 2) :=
    sameOn_extended hlengthens hslice (by omega) (by omega) (by omega)
      fun i hl hu hi => by have := hi.inside_header; omega
  have hplaced : Bytes.SameOn file (h'.write changed) 60 4 :=
    Section.sameOn_write hread fits.optional_le hedit (by omega)
      (fun i hl hu => (differsIn_longerHeaders hself last data.length).sameAt (clear i hu hl).1)
      (sameOn_extended hlengthens hslice (by omega) (by omega) (by omega)
        fun i hl hu => (clear i hu hl).2)
  have hwritten := Section.readAll_write hread fits.optional_le hedit hlong hform hplaced
    (by rw [hcount]; omega)
  rwa [hcount, listFrom_extended hsplit hoffset hinit hslice hlengthens hin (by omega)] at hwritten

/-- The last section of an image, where nothing follows it, gets longer by data. -/
theorem extendLast_extends (hread : Section.readAll file = .ok (h, sections))
    (fits : FitsAtEnd h sections data.length) {init : List Section} {last : Section}
    (hsplit : sections = init ++ [last])
    (clear : ∀ place < 64, 60 ≤ place →
      ¬ h.InFields [] (last.countedIn ++ [OptionalHeader.sizeOfImage]) place ∧ ¬ last.Extent place)
    (hend : file.length ≤ last.rawStart + last.rawSize) :
    ∃ g h' longer, extendLast file h sections data = .ok g ∧
      g.rva = last.virtualAddress + Bytes.alignNat last.virtualSize 4 ∧
      Extends file data h init last g h' longer
        (last.rawStart + Bytes.alignNat last.virtualSize 4) := by
  have hlast : sections.getLast? = some last := by rw [hsplit, List.getLast?_concat]
  have hdrop : sections.dropLast = init := by rw [hsplit, List.dropLast_concat]
  obtain ⟨hoffset, hslice, hblock, -⟩ := Section.last_spec hread hsplit
  obtain ⟨-, -, -, -, hin⟩ := Section.readAll_cases hread
  have hin := hin (by simp [hsplit])
  have hgrow := extendLast_eq file h data hlast
  rw [if_neg (by omega)] at hgrow
  obtain ⟨hstated, hraw, hsizes⟩ := longerSection_sizes (h := h) hblock fits.fileAlignment
    (fits.size_lt last hlast)
  obtain ⟨⟨h'', hread', htable, hagrees⟩, hlength, hbehind⟩ :=
    readAll_extended hread fits hsplit clear hend (last.rawStart + extendedSize h last data.length)
  have hfront := fits.table_le hread hlast hend
  have hself := Section.editOf_of_readAll hread
  have hsize := (editOf_longerHeaders hself last data.length).optionalSize_eq
  have himage := sizeOfImage_longerHeaders hself last data.length
  have hlengthens := lengthens_longerSection hblock h data.length
  rw [← hraw] at hsizes hgrow hread' hlength hbehind
  generalize longerSection h last data.length = longer at *
  generalize longerHeaders h last data.length = h' at *
  have hplace := hlengthens.offset
  have hva := hlengthens.virtualAddress
  have hstart := hlengthens.rawStart
  have hvsize := Bytes.le_alignNat last.virtualSize (by decide : 0 < 4)
  have hbelow := fits.below last hlast
  rw [hdrop] at hbelow
  generalize hbase :
    last.rawStart + Bytes.alignNat last.virtualSize 4 = base at hgrow hread' hlength hbehind ⊢
  generalize hstop : last.rawStart + longer.rawSize = stop at hgrow hread' hlength hbehind
  have hlong := le_length_extended file data base stop hlengthens.length_block
  have hreach := stop_le_length_extended file data base stop hlengthens.length_block
  refine ⟨_, h'', longer, hgrow, rfl, {
    read := hread'
    table_eq := htable
    leads := fun i hi =>
      ⟨Section.offsetOf?_concat_add hbelow (by omega) (by omega) (by omega) hi, ?_⟩
    maps := fun rva offset hm => Section.offsetOf?_concat_longer hva hstart hsizes.2 hm
    keeps := fun s hs i hi hinside => ?_
    zeros := fun i hl hu => ?_
    ends := ?_
    stated_le := by omega
    rawSize_le := hsizes.2
    reaches := ?_
    length_le := ?_
    covers := fun hfield hlt => ?_ }⟩
  · rw [hbehind _ (by omega)]
    exact Bytes.slice_eq_iff.mp (slice_extended_data hlengthens.length_block (by omega)) i hi
  · have := fits.between hlast hend (hsplit ▸ hs) hi hinside
    rw [hbehind _ (by omega)]
    refine (sameOn_extended hlengthens hslice (by omega) (by omega) (by omega) ?_).byte_eq
    intro j hl hu hj
    have := hj.inside_header
    omega
  · rw [hbehind _ (by omega)]
    exact getElem?_extended_between hlengthens.length_block (by omega) hl hu
  · simp only
    omega
  · simp only
    omega
  · simp only
    omega
  · simp only [Nat.add_assoc] at hlt
    rw [hagrees.get_eq (by rw [hsize]; exact hfield), himage hlt, hva, hstated]
    exact Bytes.le_alignNat _ fits.sectionAlignment

/-- The last section of an arranged image is last in memory. It is last in the file if nothing
follows it there. -/
theorem fitsAtEnd_of_arranged (arranged : ArrangedImage file h sections) {init : List Section}
    {last : Section} (hsplit : sections = init ++ [last])
    (hend : file.length ≤ last.rawStart + last.rawSize) {size : Nat}
    (hlt : Bytes.alignNat (Bytes.alignNat last.virtualSize 4 + size) h.fileAlignment < 2 ^ 32) :
    FitsAtEnd h sections size := by
  have hlast : ∀ s ∈ sections.getLast?, s = last := by
    rw [hsplit, List.getLast?_concat]
    exact fun s hs => (Option.some.inj hs).symm
  have hdrop : sections.dropLast = init := by rw [hsplit, List.dropLast_concat]
  refine ⟨arranged.optional_le, arranged.sectionAlignment.1, arranged.fileAlignment.1,
    fun s hs hz => (arranged.inside s hs hz).1, fun s hs t ht => ?_, fun s hs t ht => ?_,
    fun s hs => ?_⟩
  · rw [hdrop] at ht
    have := arranged.le_last hsplit ht
    rw [hlast s hs]
    omega
  · rw [hdrop] at ht
    rw [hlast s hs]
    have hapart := arranged.apart
    rw [hsplit, List.pairwise_append] at hapart
    have hinside := arranged.inside t (by simp [hsplit, ht])
    rcases hapart.2.2 t ht last (by simp) with hz | hz | hz | hz <;> omega
  · rw [hlast s hs]
    exact hlt

/-- What a longer last section changes in the headers of a growable image does not lie over the
place of the new headers. -/
theorem clear_extended (growable : Growable h sections) {last : Section}
    (hlast : sections.getLast? = some last) :
    ∀ place < 64, 60 ≤ place →
      ¬ h.InFields [] (last.countedIn ++ [OptionalHeader.sizeOfImage]) place ∧
        ¬ last.Extent place := by
  have hfields : ∀ f ∈ last.countedIn ++ [OptionalHeader.sizeOfImage],
      f ∈ ImageHeaders.sizeFields := by
    intro f hf
    rw [List.mem_append, List.mem_singleton] at hf
    rcases hf with hf | rfl
    · exact last.countedIn_subset hf
    · decide
  intro place hu hl
  obtain ⟨hcounts, hextent⟩ := growable.clear place hu hl
  exact ⟨fun hp => hcounts (counts_of_inFields (by simp) hfields hp), hextent last hlast⟩

/-- An image with a longer last section carries what was put into it. -/
theorem extendLast_carries (arranged : ArrangedImage file h sections)
    (growable : Growable h sections) (room : HasRoom file h sections data.length) {g : Grown}
    (hg : extendLast file h sections data = .ok g) :
    ∃ h' sections' base, Carries file sections data g h' sections' base := by
  have hne : sections ≠ [] := by
    rintro rfl
    cases hg
  obtain ⟨init, last, hsplit, hlast, -⟩ := Section.exists_last arranged.read hne
  have hmem : last ∈ sections := List.mem_of_getLast? hlast
  have hend : file.length ≤ last.rawStart + last.rawSize := by
    rw [extendLast_eq file h data hlast] at hg
    split at hg
    · cases hg
    · omega
  have fits := fitsAtEnd_of_arranged arranged hsplit hend (room.extended last hlast)
  have hfront := fits.table_le arranged.read hlast hend
  obtain ⟨g', h', longer, hgrow, hrva, hextends⟩ := extendLast_extends arranged.read fits
    hsplit (clear_extended growable hlast) hend
  obtain rfl : g' = g := Except.ok.inj (hgrow.symm.trans hg)
  have hvsize := Bytes.le_alignNat last.virtualSize (by decide : 0 < 4)
  have hlong := hextends.length_le
  refine ⟨h', init ++ [longer], _, {
    read := hextends.read
    addressed := ?_
    positive := fun hall => ?_
    aligned := fun hstarts => Nat.dvd_add (hstarts last hmem) (Bytes.dvd_alignNat _ (by decide))
    holds := Bytes.slice_eq_iff.mpr fun i hi => (hextends.leads i hi).2
    leads := fun place hp => (hextends.leads place hp).1
    maps := by rw [hsplit]; exact hextends.maps
    keeps := fun start count ho i hl hu => ?_
    apart := fun start count hc ho => Or.inr ?_
    front := fun start count hc ho => ?_
    inside := fun start count hc ho => ?_ }⟩
  · rw [hrva]
    exact Nat.dvd_add (arranged.addressed last hmem) (Bytes.dvd_alignNat _ (by decide))
  · rw [hrva]
    exact Nat.add_pos_left (hall last hmem) _
  · have hin := arranged.owned (by omega) ho
    obtain ⟨s, hs, hstart, hstop⟩ := ho
    have hbyte := hextends.keeps s (hsplit ▸ hs) (i - s.rawStart) (by omega) (by omega)
    rwa [Nat.add_sub_cancel' (by omega)] at hbyte
  · have := arranged.owned_le_last hsplit hfront hend hc ho
    omega
  · have := (arranged.owned hc ho).1
    rw [hextends.table_eq, List.length_append, List.length_singleton]
    rwa [hsplit, List.length_append, List.length_singleton] at this
  · have := (arranged.owned hc ho).2
    omega

end CilRestore.Grown
