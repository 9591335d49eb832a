import CilRestore.Image.Grow
import CilRestore.Proofs.Image.Pasting

/-!
# Growing an image

The sections of an arranged image follow each other without overlapping, in memory and in the file.
An arranged image that has grown, by a new section or by the last one, is read with all that its
sections had in the file where it was, and with the new data at the RVA that growing answers
(`Grown.Carries`). That takes a last section that does not reach into the addresses behind it, and
fields to be changed that do not lie over the place of the headers (`Growable`).
-/

namespace CilRestore

/-- An image with sections that do not overlap, in order, behind their table and inside the file. -/
structure ArrangedImage (file : Bytes) (h : ImageHeaders) (sections : List Section) : Prop where
  /-- Its headers can be read. -/
  read : Section.readAll file = .ok (h, sections)
  /-- The optional header is no longer than its form. -/
  optional_le : h.optionalSize ≤ OptionalHeader.size h.is64
  /-- Sections ascend in memory. -/
  ascending : sections.Pairwise fun s t => s.virtualAddress + s.rawSize ≤ t.virtualAddress
  /-- Their data in the file do not overlap. -/
  apart : sections.Pairwise fun s t => s.rawSize = 0 ∨ t.rawSize = 0 ∨
    Bytes.Apart s.rawStart s.rawSize t.rawStart t.rawSize
  /-- They lie between the table of sections and the end of the file. -/
  inside : ∀ s ∈ sections, s.rawSize ≠ 0 →
    h.tableStart + sections.length * Section.headerSize ≤ s.rawStart ∧
      s.rawStart + s.rawSize ≤ file.length
  /-- The addresses of sections are multiples of four. -/
  addressed : ∀ s ∈ sections, 4 ∣ s.virtualAddress
  /-- New addresses are multiples of four. -/
  sectionAlignment : 0 < h.sectionAlignment ∧ 4 ∣ h.sectionAlignment
  /-- New file offsets are multiples of four. -/
  fileAlignment : 0 < h.fileAlignment ∧ 4 ∣ h.fileAlignment
  /-- One more section can be counted. -/
  few : sections.length < 65535

/-- The fields of a section header that growing the section changes. -/
def Section.extentFields : List Field :=
  [virtualSizeField, rawSizeField, characteristicsField]

/-- A place in a file holds a byte of one of those fields. -/
def Section.Extent (s : Section) (place : Nat) : Prop :=
  ∃ f ∈ extentFields, f.CoversAt s.offset place

instance (s : Section) (place : Nat) : Decidable (s.Extent place) :=
  inferInstanceAs (Decidable (∃ f ∈ _, _))

/-- Those fields lie inside the header of the section, behind its name. -/
theorem Section.Extent.inside_header {s : Section} {place : Nat} (h : s.Extent place) :
    s.offset + 8 ≤ place ∧ place < s.offset + headerSize := by
  obtain ⟨f, hf, hc⟩ := h
  have hfields : ∀ f ∈ extentFields, 8 ≤ f.offset ∧ f.offset + f.width ≤ headerSize := by decide
  have := hfields f hf
  rw [Field.CoversAt] at hc
  omega

/-- The sizes of the optional header that count what a section holds. -/
def Section.countedIn (s : Section) : List Field :=
  if s.characteristics &&& containsCode ≠ 0 then [OptionalHeader.sizeOfCode]
  else if s.characteristics &&& containsData ≠ 0 then [OptionalHeader.sizeOfInitializedData]
  else []

/-- A section is counted in no other sizes than those that growing changes. -/
theorem Section.countedIn_subset (s : Section) : s.countedIn ⊆ ImageHeaders.sizeFields := by
  rw [countedIn]
  split
  · decide
  split
  · decide
  · decide

/-- An image can grow without harm to its old data. -/
@[mk_iff]
structure Growable (h : ImageHeaders) (sections : List Section) : Prop where
  /-- The fields that growing changes do not lie over the place of the new headers, which the old
  one states. -/
  clear : ∀ place < 64, 60 ≤ place →
    ¬ h.Counts place ∧ ∀ s ∈ sections.getLast?, ¬ s.Extent place
  /-- The data of the last section do not reach into the addresses of the next one. -/
  last : ∀ s ∈ sections.getLast?, s.virtualAddress + s.rawSize ≤
    Bytes.alignNat (s.virtualAddress + s.virtualSize) h.sectionAlignment

instance (h : ImageHeaders) (sections : List Section) : Decidable (Growable h sections) :=
  decidable_of_iff _ (growable_iff h sections).symm

/-- Bytes of a file that belong to a section, in the file and in memory. -/
def Section.Owns (sections : List Section) (start count : Nat) : Prop :=
  ∃ s ∈ sections, s.rawStart ≤ start ∧ start + count ≤ s.rawStart + min s.rawSize s.virtualSize

instance (sections : List Section) (start count : Nat) :
    Decidable (Section.Owns sections start count) :=
  inferInstanceAs (Decidable (∃ s ∈ sections, _))

/-- The sizes and addresses that growing by so many bytes leads to fit their fields. -/
@[mk_iff]
structure Grown.HasRoom (file : Bytes) (h : ImageHeaders) (sections : List Section) (size : Nat) :
    Prop where
  /-- The address of a new section fits. -/
  address : ∀ s ∈ sections.getLast?,
    Bytes.alignNat (s.virtualAddress + s.virtualSize) h.sectionAlignment < 2 ^ 32
  /-- The place of a new section in the file fits. -/
  place : Bytes.alignNat file.length h.fileAlignment < 2 ^ 32
  /-- The size of a new section fits. -/
  size_lt : Bytes.alignNat size h.fileAlignment < 2 ^ 32
  /-- The size of the last section fits when it is extended. -/
  extended : ∀ s ∈ sections.getLast?,
    Bytes.alignNat (Bytes.alignNat s.virtualSize 4 + size) h.fileAlignment < 2 ^ 32

/-- What leaves room for data leaves room for less. -/
theorem Grown.HasRoom.mono {file : Bytes} {h : ImageHeaders} {sections : List Section}
    {size less : Nat} (room : Grown.HasRoom file h sections size) (hpos : 0 < h.fileAlignment)
    (hle : less ≤ size) : Grown.HasRoom file h sections less where
  address := room.address
  place := room.place
  size_lt := Nat.lt_of_le_of_lt (Bytes.alignNat_mono hle hpos) room.size_lt
  extended s hs :=
    Nat.lt_of_le_of_lt (Bytes.alignNat_mono (Nat.add_le_add_left hle _) hpos) (room.extended s hs)

/-- A file that has grown by some data, at a file offset: it is read with the data at their RVA and
with all else where it was. -/
structure Grown.Carries (file : Bytes) (sections : List Section) (data : Bytes) (g : Grown)
    (h' : ImageHeaders) (sections' : List Section) (base : Nat) : Prop where
  /-- The new headers can be read. -/
  read : Section.readAll g.data = .ok (h', sections')
  /-- The data stand at an RVA that is a multiple of four. -/
  addressed : 4 ∣ g.rva
  /-- That RVA is not 0 when those of the sections are not. -/
  positive : (∀ s ∈ sections, 0 < s.virtualAddress) → 0 < g.rva
  /-- In the file they do so when the sections did. -/
  aligned : (∀ s ∈ sections, 4 ∣ s.rawStart) → 4 ∣ base
  /-- They stand there. -/
  holds : Bytes.slice g.data base data.length = data
  /-- The table of sections leads there. -/
  leads : ∀ place < data.length,
    Section.offsetOf? sections' ((g.rva + place : Nat) : Int) = some (base + place)
  /-- Addresses that led to the file lead to the same offsets. -/
  maps : ∀ (rva : Int) (offset : Nat), Section.offsetOf? sections rva = some offset →
    Section.offsetOf? sections' rva = some offset
  /-- What belongs to a section did not change. -/
  keeps : ∀ start count, Section.Owns sections start count →
    Bytes.SameOn file g.data start count
  /-- It lies beside the new data. -/
  apart : ∀ start count, 0 < count → Section.Owns sections start count →
    Bytes.Apart base data.length start count
  /-- It lies behind the headers. -/
  front : ∀ start count, 0 < count → Section.Owns sections start count →
    h'.tableStart + sections'.length * Section.headerSize ≤ start
  /-- It lies inside the file. -/
  inside : ∀ start count, 0 < count → Section.Owns sections start count →
    start + count ≤ g.data.length

namespace Section

/-! ### The table of sections -/

theorem length_listFrom (data : Bytes) (count start : Nat) :
    (listFrom data count start).length = count := by
  rw [listFrom, List.length_map, List.length_range]

/-- The last header stands behind those in front of it. -/
theorem listFrom_succ (data : Bytes) (count start : Nat) :
    listFrom data (count + 1) start = listFrom data count start ++
      [⟨start + count * headerSize, Bytes.slice data (start + count * headerSize) headerSize⟩] := by
  rw [listFrom, List.range_succ, List.map_append, List.map_singleton, listFrom]

/-- Headers are read from their own bytes. -/
theorem listFrom_congr {data other : Bytes} {count start : Nat}
    (h : Bytes.SameOn data other start (count * headerSize)) :
    listFrom other count start = listFrom data count start := by
  rw [listFrom, listFrom]
  apply List.map_congr_left
  intro k hk
  have hlt := List.mem_range.mp hk
  have hle := Nat.mul_le_mul_right headerSize (Nat.succ_le_of_lt hlt)
  rw [Nat.succ_mul] at hle
  rw [(h.mono (by omega) (by omega)).slice_eq]

/-- What a sound image is read as. -/
theorem readAll_cases {file : Bytes} {h : ImageHeaders} {sections : List Section}
    (hr : readAll file = .ok (h, sections)) :
    ImageHeaders.StandAt file h.start ∧ h = ImageHeaders.atStart file h.start ∧
      sections.length = h.sectionCount ∧
      sections = listFrom file h.sectionCount h.tableStart ∧
      (sections ≠ [] → h.tableStart + sections.length * headerSize ≤ file.length) := by
  obtain ⟨hs, he, hin, hl⟩ := readAll_eq_ok.mp hr
  have hlen : sections.length = h.sectionCount := by rw [hl, length_listFrom]
  refine ⟨hs, he, hlen, hl, ?_⟩
  intro hne
  rw [hlen]
  rcases hin with hz | hin
  · rw [hz] at hlen
    exact absurd (List.eq_nil_of_length_eq_zero hlen) hne
  · exact hin

/-- Headers that were read are an edit of themselves. -/
theorem editOf_of_readAll {file : Bytes} {h : ImageHeaders} {sections : List Section}
    (hr : readAll file = .ok (h, sections)) : ImageHeaders.EditOf h h := by
  obtain ⟨hstand, hat, -⟩ := readAll_cases hr
  rw [hat]
  exact .refl hstand

/-- An edit of the headers of a file that is pasted into what became of the file brings back the
bytes that are the same in both, and keeps what is beside the headers. -/
theorem getElem?_write {file changed : Bytes} {h h' : ImageHeaders} {sections : List Section}
    (hr : readAll file = .ok (h, sections)) (hopt : h.optionalSize ≤ OptionalHeader.size h.is64)
    (he : ImageHeaders.EditOf h h') (hlen : h.tableStart ≤ changed.length) :
    (h'.write changed).length = changed.length ∧
      ∀ i, ImageHeaders.SameAt h h' i → (h'.write changed)[i]? =
        if h.fileStart ≤ i ∧ i < h.tableStart then file[i]? else changed[i]? := by
  obtain ⟨-, hat, -⟩ := readAll_cases hr
  have ho : h'.optionalSize ≤ h'.optional.length := by
    rw [he.optionalSize_eq, he.length_optional]
    exact hopt
  refine ⟨ImageHeaders.length_write he.length_file ho (by rw [he.tableStart_eq]; exact hlen),
    fun i hi => ?_⟩
  rw [hat] at he hopt hlen hi ⊢
  exact he.getElem?_write hopt hlen hi

/-- What is changed neither in the headers nor beside them is kept. -/
theorem sameOn_write {file changed : Bytes} {h h' : ImageHeaders} {sections : List Section}
    (hr : readAll file = .ok (h, sections)) (hopt : h.optionalSize ≤ OptionalHeader.size h.is64)
    (he : ImageHeaders.EditOf h h') (hlen : h.tableStart ≤ changed.length) {start count : Nat}
    (hsame : ∀ i, start ≤ i → i < start + count → ImageHeaders.SameAt h h' i)
    (hs : Bytes.SameOn file changed start count) :
    Bytes.SameOn file (h'.write changed) start count := by
  intro i hl hu
  rw [(getElem?_write hr hopt he hlen).2 i (hsame i hl hu)]
  split
  · rfl
  · exact hs i hl hu

/-- A file that was changed behind its headers, and into which edited headers are pasted, is read
with those headers and with the table of sections that it then has, if it still states their
place. -/
theorem readAll_write {file changed : Bytes} {h h' : ImageHeaders} {sections : List Section}
    (hr : readAll file = .ok (h, sections)) (hopt : h.optionalSize ≤ OptionalHeader.size h.is64)
    (he : ImageHeaders.EditOf h h') (hlen : file.length ≤ changed.length)
    (hform : Bytes.SameOn file changed 0 (h.start + 4 + FileHeader.size + 2))
    (hplace : Bytes.SameOn file (h'.write changed) 60 4)
    (hin : h.tableStart + h'.sectionCount * headerSize ≤ changed.length) :
    (∃ h'', readAll (h'.write changed) =
        .ok (h'', listFrom changed h'.sectionCount h.tableStart) ∧
      h''.tableStart = h.tableStart ∧ ImageHeaders.Agrees h' h'') ∧
    (h'.write changed).length = changed.length ∧
    ∀ i, h.tableStart ≤ i → (h'.write changed)[i]? = changed[i]? := by
  obtain ⟨hstand, hat, -, -, -⟩ := readAll_cases hr
  have htable : h'.tableStart = h.tableStart := he.tableStart_eq
  have ho : h'.optionalSize ≤ h'.optional.length := by
    rw [he.optionalSize_eq, he.length_optional]
    exact hopt
  have hd : h'.tableStart ≤ changed.length := by omega
  have hlength := ImageHeaders.length_write he.length_file ho hd
  have hkeep : ∀ start count, h.tableStart ≤ start →
      Bytes.SameOn changed (h'.write changed) start count := fun start count hl =>
    ImageHeaders.sameOn_write he.length_file ho hd (Or.inr (by omega))
  obtain ⟨hstand', hagrees⟩ := ImageHeaders.EditOf.standAt_write (hat ▸ he) hstand (hat ▸ hopt) hlen
    hform hplace
  have hcount : (ImageHeaders.atStart (h'.write changed) h.start).sectionCount =
      h'.sectionCount := by
    rw [ImageHeaders.sectionCount, hagrees.file_eq, ImageHeaders.sectionCount]
  have htable' := (ImageHeaders.tableStart_congr hagrees.start_eq hagrees.file_eq).trans htable
  refine ⟨⟨ImageHeaders.atStart (h'.write changed) h.start,
    readAll_eq_ok.mpr ⟨hstand', rfl, ?_, ?_⟩, htable', hagrees⟩, hlength,
    fun i hl => (hkeep i 1 hl).byte_eq⟩
  · rw [hcount, htable', hlength]
    exact Or.inr hin
  · rw [hcount, htable']
    exact (listFrom_congr (hkeep _ _ (Nat.le_refl _))).symm

/-- The first section that holds an address decides where it leads. -/
theorem offsetOf?_append {a b : List Section} {rva : Int} :
    offsetOf? (a ++ b) rva = (offsetOf? a rva).or (offsetOf? b rva) := by
  simp only [offsetOf?, List.find?_append, Option.map_or]

/-- An RVA behind all sections leads nowhere. -/
theorem offsetOf?_eq_none {sections : List Section} {rva : Int}
    (h : ∀ s ∈ sections, s.virtualAddress + s.rawSize ≤ rva) : offsetOf? sections rva = none := by
  rw [offsetOf?, Option.map_eq_none_iff, List.find?_eq_none]
  intro s hs
  have := h s hs
  simp only [holds, Bool.and_eq_true, decide_eq_true_eq]
  omega

/-- An RVA in the data of a section leads into them. -/
theorem offsetOf?_singleton {s : Section} {rva : Nat} (hl : s.virtualAddress ≤ rva)
    (hu : rva < s.virtualAddress + s.rawSize) :
    offsetOf? [s] (rva : Int) = some (rva - s.virtualAddress + s.rawStart) := by
  have hh : s.holds rva = true := by
    simp only [holds, Bool.and_eq_true, decide_eq_true_eq]
    omega
  simp only [offsetOf?, List.find?_cons, hh, Option.map_some, Option.some.injEq]
  omega

/-- A section with more data leads where it led. -/
theorem offsetOf?_longer {s t : Section} (ha : t.virtualAddress = s.virtualAddress)
    (hp : t.rawStart = s.rawStart) (hz : s.rawSize ≤ t.rawSize) {rva : Int} {offset : Nat}
    (h : offsetOf? [s] rva = some offset) : offsetOf? [t] rva = some offset := by
  rw [offsetOf?, Option.map_eq_some_iff] at h
  obtain ⟨found, hf, he⟩ := h
  have hs : s.holds rva = true := by
    have := List.find?_some hf
    rwa [List.mem_singleton.mp (List.mem_of_find?_eq_some hf)] at this
  have hfound := List.mem_singleton.mp (List.mem_of_find?_eq_some hf)
  have ht : t.holds rva = true := by
    simp only [holds, Bool.and_eq_true, decide_eq_true_eq] at hs ⊢
    omega
  simp only [offsetOf?, List.find?_cons, ht, Option.map_some, Option.some.injEq]
  rw [← he, hfound, ha, hp]

/-- An address in the last section leads into it when the others end below. -/
theorem offsetOf?_concat {init : List Section} {t : Section} {rva : Nat}
    (h : ∀ s ∈ init, s.virtualAddress + s.rawSize ≤ rva)
    (hl : t.virtualAddress ≤ rva) (hu : rva < t.virtualAddress + t.rawSize) :
    offsetOf? (init ++ [t]) (rva : Int) = some (rva - t.virtualAddress + t.rawStart) := by
  rw [offsetOf?_append, offsetOf?_eq_none, Option.none_or, offsetOf?_singleton hl hu]
  exact_mod_cast h

/-- So do the addresses of a run of bytes that it has room for, one after the other. -/
theorem offsetOf?_concat_add {init : List Section} {t : Section} {rva base count : Nat}
    (h : ∀ s ∈ init, s.virtualAddress + s.rawSize ≤ rva) (hl : t.virtualAddress ≤ rva)
    (hu : rva + count ≤ t.virtualAddress + t.rawSize)
    (hbase : rva - t.virtualAddress + t.rawStart = base) {i : Nat} (hi : i < count) :
    offsetOf? (init ++ [t]) ((rva + i : Nat) : Int) = some (base + i) := by
  rw [offsetOf?_concat (fun s hs => Nat.le_add_right_of_le (h s hs)) (by omega) (by omega),
    Option.some.injEq]
  omega

/-- A table with a longer last section leads where it led. -/
theorem offsetOf?_concat_longer {init : List Section} {s t : Section}
    (ha : t.virtualAddress = s.virtualAddress) (hp : t.rawStart = s.rawStart)
    (hz : s.rawSize ≤ t.rawSize) {rva : Int} {offset : Nat}
    (h : offsetOf? (init ++ [s]) rva = some offset) :
    offsetOf? (init ++ [t]) rva = some offset := by
  rw [offsetOf?_append] at h ⊢
  cases hi : offsetOf? init rva with
  | some found =>
    rw [hi, Option.some_or] at h
    rw [Option.some_or, h]
  | none =>
    rw [hi, Option.none_or] at h
    rw [Option.none_or, offsetOf?_longer ha hp hz h]

/-- An address that is a multiple of four leads to an offset that is one, where sections stand at
such addresses and offsets. -/
theorem dvd_offsetOf? {sections : List Section}
    (aligned : ∀ s ∈ sections, 4 ∣ s.virtualAddress ∧ 4 ∣ s.rawStart) {rva : Int} {offset : Nat}
    (ho : offsetOf? sections rva = some offset) (hr : Int.fmod rva 4 = 0) : 4 ∣ offset := by
  rw [offsetOf?, Option.map_eq_some_iff] at ho
  obtain ⟨s, hs, he⟩ := ho
  obtain ⟨hva, hraw⟩ := aligned s (List.mem_of_find?_eq_some hs)
  have hh := List.find?_some hs
  simp only [holds, Bool.and_eq_true, decide_eq_true_eq] at hh
  rw [Int.fmod_eq_emod_of_nonneg _ (by decide)] at hr
  omega

/-- A file that was changed behind its table of sections only is read with the same sections. -/
theorem readAll_of_sameOn {data other : Bytes} {h : ImageHeaders} {sections : List Section}
    (hr : readAll data = .ok (h, sections)) (hne : sections ≠ [])
    (hlen : data.length ≤ other.length)
    (hs : Bytes.SameOn data other 0 (h.tableStart + sections.length * headerSize)) :
    ∃ h', readAll other = .ok (h', sections) ∧ h' = ImageHeaders.atStart other h.start ∧
      h'.is64 = h.is64 ∧ h'.file = h.file := by
  obtain ⟨hstand, hat, hcount, hlist, hin⟩ := readAll_cases hr
  have hin := hin hne
  have htable : h.tableStart = h.start + 4 + FileHeader.size + h.optionalSize := rfl
  have hold : ImageHeaders.oldHeaderSize = 64 := rfl
  have hfsize : FileHeader.size = 20 := rfl
  have hheader : headerSize = 40 := rfl
  have hpos : headerSize ≤ sections.length * headerSize :=
    Nat.le_mul_of_pos_left _ (List.length_pos_iff.mpr hne)
  have hfile : (ImageHeaders.atStart other h.start).file = h.file := by
    conv_rhs => rw [hat]
    exact (hs.mono (Nat.zero_le _) (by omega)).slice_eq
  have hform : (ImageHeaders.atStart other h.start).is64 = h.is64 := by
    have hmagic : Bytes.field other (h.start + 4 + FileHeader.size) 2 =
        Bytes.field data (h.start + 4 + FileHeader.size) 2 :=
      (hs.mono (Nat.zero_le _) (by omega)).field_eq
    conv_rhs => rw [hat]
    simp only [ImageHeaders.atStart]
    rw [hmagic]
  have hcount' : (ImageHeaders.atStart other h.start).sectionCount = h.sectionCount := by
    rw [ImageHeaders.sectionCount, hfile, ImageHeaders.sectionCount]
  have htable' : (ImageHeaders.atStart other h.start).tableStart = h.tableStart :=
    ImageHeaders.tableStart_congr rfl hfile
  refine ⟨ImageHeaders.atStart other h.start, readAll_eq_ok.mpr ⟨?_, rfl, ?_, ?_⟩, rfl, hform,
    hfile⟩
  · exact hstand.of_sameOn hlen (hs.mono (Nat.zero_le _) (by omega))
      (hs.mono (Nat.zero_le _) (by omega)) (hs.mono (Nat.zero_le _) (by omega))
      (hs.mono (Nat.zero_le _) (by omega))
  · rw [hcount', htable', ← hcount]
    exact Or.inr (by omega)
  · rw [hcount', htable', ← hcount, listFrom_congr (hs.mono (Nat.zero_le _) (by omega)),
      hcount, ← hlist]

/-- The last section header stands at the end of the table, behind those of the other sections. -/
theorem last_spec {file : Bytes} {h : ImageHeaders} {sections init : List Section} {last : Section}
    (hr : readAll file = .ok (h, sections)) (hsplit : sections = init ++ [last]) :
    last.offset + headerSize = h.tableStart + sections.length * headerSize ∧
      last.block = Bytes.slice file last.offset headerSize ∧ last.block.length = headerSize ∧
      init = listFrom file init.length h.tableStart := by
  obtain ⟨-, -, hlen, hlist, hin⟩ := readAll_cases hr
  have hin := hin (by simp [hsplit])
  have hcount : sections.length = init.length + 1 := by simp [hsplit]
  rw [← hlen, hcount, listFrom_succ, hsplit] at hlist
  rw [hcount, Nat.succ_mul] at hin ⊢
  obtain ⟨hinit, hlast⟩ := List.append_inj' hlist rfl
  obtain rfl := List.singleton_inj.mp hlast
  refine ⟨?_, rfl, Bytes.length_slice (by omega), hinit⟩
  simp only
  omega

/-- The sections of a file that has some end with the one that the last header describes. -/
theorem exists_last {file : Bytes} {h : ImageHeaders} {sections : List Section}
    (hr : readAll file = .ok (h, sections)) (hne : sections ≠ []) :
    ∃ init last, sections = init ++ [last] ∧ sections.getLast? = some last ∧
      last.offset + headerSize = h.tableStart + sections.length * headerSize ∧
      last.block = Bytes.slice file last.offset headerSize ∧ last.block.length = headerSize ∧
      init = listFrom file init.length h.tableStart := by
  have hsplit := (List.dropLast_append_getLast hne).symm
  exact ⟨_, _, hsplit, List.getLast?_eq_some_getLast hne, last_spec hr hsplit⟩

end Section

/-- A field of the optional header is the same in files that are the same up to its end. -/
theorem ImageHeaders.get_optional_of_sameOn {file other : Bytes} {h h' : ImageHeaders}
    (hat : h = atStart file h.start) (hat' : h' = atStart other h.start) (hform : h'.is64 = h.is64)
    {stop : Nat} (hs : Bytes.SameOn file other 0 stop) {f : Field}
    (hin : h.start + 4 + FileHeader.size + f.offset + f.width ≤ stop) :
    f.get h'.optional = f.get h.optional := by
  have ho : h.optional = Bytes.slice file (h.start + 4 + FileHeader.size)
      (OptionalHeader.size h.is64) := by
    rw [hat]
    rfl
  have ho' : h'.optional = Bytes.slice other (h.start + 4 + FileHeader.size)
      (OptionalHeader.size h.is64) := by
    rw [← hform, hat']
    rfl
  refine Bytes.SameOn.field_eq fun i hl hu => ?_
  rw [ho', ho, Bytes.getElem?_slice, Bytes.getElem?_slice]
  split
  · exact hs _ (Nat.zero_le _) (by omega)
  · rfl

namespace ArrangedImage

variable {file : Bytes} {h : ImageHeaders} {sections : List Section}

/-- What belongs to a section lies behind the table of sections and inside the file. -/
theorem owned (arranged : ArrangedImage file h sections) {start count : Nat} (hc : 0 < count)
    (ho : Section.Owns sections start count) :
    h.tableStart + sections.length * Section.headerSize ≤ start ∧ start + count ≤ file.length := by
  obtain ⟨s, hs, hl, hu⟩ := ho
  obtain ⟨h1, h2⟩ := arranged.inside s hs (by omega)
  omega

/-- No section reaches above the last one. -/
theorem le_last (arranged : ArrangedImage file h sections) {init : List Section} {last : Section}
    (he : sections = init ++ [last]) {s : Section} (hs : s ∈ init) :
    s.virtualAddress + s.rawSize ≤ last.virtualAddress := by
  have ha := arranged.ascending
  rw [he, List.pairwise_append] at ha
  exact ha.2.2 s hs last (by simp)

/-- What belongs to a section ends where the addresses of the last one end in the file, or in front
of that. -/
theorem owned_le_last (arranged : ArrangedImage file h sections) {init : List Section}
    {last : Section} (he : sections = init ++ [last])
    (hfront : h.tableStart + sections.length * Section.headerSize ≤ last.rawStart)
    (hend : file.length ≤ last.rawStart + last.rawSize) {start count : Nat} (hc : 0 < count)
    (ho : Section.Owns sections start count) :
    start + count ≤ last.rawStart + last.virtualSize := by
  obtain ⟨s, hs, hl, hu⟩ := ho
  rw [he, List.mem_append, List.mem_singleton] at hs
  rcases hs with hs | rfl
  · have hin := arranged.inside s (by simp [he, hs]) (by omega)
    have hapart := arranged.apart
    rw [he, List.pairwise_append] at hapart
    rcases hapart.2.2 s hs last (by simp) with hz | hz | hz | hz <;> omega
  · omega

/-- An arranged image that was changed behind its table of sections only is arranged, and as
growable as before. -/
theorem of_sameOn (arranged : ArrangedImage file h sections) (hne : sections ≠ []) {other : Bytes}
    (hlen : other.length = file.length)
    (hs : Bytes.SameOn file other 0 (h.tableStart + sections.length * Section.headerSize)) :
    ∃ h', ArrangedImage other h' sections ∧ (Growable h sections → Growable h' sections) ∧
      h'.sectionAlignment = h.sectionAlignment ∧ h'.fileAlignment = h.fileAlignment := by
  obtain ⟨h', hread, hat', hform, hfile⟩ :=
    Section.readAll_of_sameOn arranged.read hne (Nat.le_of_eq hlen.symm) hs
  obtain ⟨-, hat, hcount, -, -⟩ := Section.readAll_cases arranged.read
  have hstart : h'.start = h.start := by rw [hat', ImageHeaders.atStart]
  have hsize : h'.optionalSize = h.optionalSize := by
    rw [ImageHeaders.optionalSize, hfile, ImageHeaders.optionalSize]
  have htable := ImageHeaders.tableStart_congr hstart hfile
  have hlead : h.start + 4 + FileHeader.size + 40 ≤
      h.tableStart + sections.length * Section.headerSize := by
    have hone : Section.headerSize ≤ sections.length * Section.headerSize :=
      Nat.le_mul_of_pos_left _ (List.length_pos_iff.mpr hne)
    have hheader : Section.headerSize = 40 := rfl
    have : h.tableStart = h.start + 4 + FileHeader.size + h.optionalSize := rfl
    omega
  -- the alignments lie in the optional header or, if it is short, in the table of sections
  have hfield : ∀ f : Field, f.offset + f.width ≤ 40 → f.get h'.optional = f.get h.optional :=
    fun f hf => ImageHeaders.get_optional_of_sameOn hat hat' hform hs (by omega)
  have hsection : h'.sectionAlignment = h.sectionAlignment :=
    hfield OptionalHeader.sectionAlignment (by decide)
  have hfileunit : h'.fileAlignment = h.fileAlignment :=
    hfield OptionalHeader.fileAlignment (by decide)
  refine ⟨h', ?_, fun growable => ⟨?_, ?_⟩, hsection, hfileunit⟩
  · exact {
      read := hread
      optional_le := by
        rw [hsize, hform]
        exact arranged.optional_le
      ascending := arranged.ascending
      apart := arranged.apart
      inside := by
        rw [htable, hlen]
        exact arranged.inside
      addressed := arranged.addressed
      sectionAlignment := by
        rw [hsection]
        exact arranged.sectionAlignment
      fileAlignment := by
        rw [hfileunit]
        exact arranged.fileAlignment
      few := arranged.few }
  · intro place hu hl
    rw [ImageHeaders.counts_congr hstart hfile]
    exact growable.clear place hu hl
  · rw [hsection]
    exact growable.last

end ArrangedImage

namespace Grown

/-- The header of a new section is as long as it has to be, whatever it says. -/
theorem length_newBlock (virtualSize virtualAddress rawSize rawStart : Int) :
    (newBlock virtualSize virtualAddress rawSize rawStart).length = Section.headerSize := by
  have h0 : (Bytes.padTo newName Section.headerSize).length = 40 := by decide
  have h1 := (Field.length_set (f := Section.virtualSizeField) (by rw [h0]; decide)
    virtualSize).trans h0
  have h2 := (Field.length_set (f := Section.virtualAddressField) (by rw [h1]; decide)
    virtualAddress).trans h1
  have h3 := (Field.length_set (f := Section.rawSizeField) (by rw [h2]; decide) rawSize).trans h2
  have h4 := (Field.length_set (f := Section.rawStartField) (by rw [h3]; decide) rawStart).trans h3
  exact (Field.length_set (f := Section.characteristicsField) (by rw [h4]; decide)
    (newCharacteristics : Int)).trans h4

/-- The header of a new section says where the section is. -/
theorem newBlock_fields (offset : Nat) {virtualSize address rawSize rawStart : Nat}
    (hv : virtualSize < 2 ^ 32) (ha : address < 2 ^ 32) (hz : rawSize < 2 ^ 32)
    (hs : rawStart < 2 ^ 32) :
    let added : Section := ⟨offset, newBlock virtualSize address rawSize rawStart⟩
    added.statedVirtualSize = virtualSize ∧ added.virtualAddress = address ∧
      added.rawSize = rawSize ∧ added.rawStart = rawStart := by
  have h0 : (Bytes.padTo newName Section.headerSize).length = 40 := by decide
  have h1 := (Field.length_set (f := Section.virtualSizeField)
    (by rw [h0]; decide) (virtualSize : Int)).trans h0
  have h2 := (Field.length_set (f := Section.virtualAddressField)
    (by rw [h1]; decide) (address : Int)).trans h1
  have h3 := (Field.length_set (f := Section.rawSizeField)
    (by rw [h2]; decide) (rawSize : Int)).trans h2
  have h4 := (Field.length_set (f := Section.rawStartField)
    (by rw [h3]; decide) (rawStart : Int)).trans h3
  simp only [Section.statedVirtualSize, Section.virtualAddress, Section.rawSize, Section.rawStart,
    newBlock]
  refine ⟨?_, ?_, ?_, ?_⟩
  · rw [Field.get_set_of_apart (by rw [h4]; decide) _ (Or.inr (by decide)),
      Field.get_set_of_apart (by rw [h3]; decide) _ (Or.inr (by decide)),
      Field.get_set_of_apart (by rw [h2]; decide) _ (Or.inr (by decide)),
      Field.get_set_of_apart (by rw [h1]; decide) _ (Or.inr (by decide)),
      Field.get_set_natCast (by rw [h0]; decide) hv]
  · rw [Field.get_set_of_apart (by rw [h4]; decide) _ (Or.inr (by decide)),
      Field.get_set_of_apart (by rw [h3]; decide) _ (Or.inr (by decide)),
      Field.get_set_of_apart (by rw [h2]; decide) _ (Or.inr (by decide)),
      Field.get_set_natCast (by rw [h1]; decide) ha]
  · rw [Field.get_set_of_apart (by rw [h4]; decide) _ (Or.inr (by decide)),
      Field.get_set_of_apart (by rw [h3]; decide) _ (Or.inr (by decide)),
      Field.get_set_natCast (by rw [h2]; decide) hz]
  · rw [Field.get_set_of_apart (by rw [h4]; decide) _ (Or.inr (by decide)),
      Field.get_set_natCast (by rw [h3]; decide) hs]

theorem narrow_le (limit : Nat) (s : Section) : narrow limit s ≤ limit := by
  unfold narrow
  split
  · exact Nat.min_le_left _ _
  · exact Nat.le_refl _

/-- Sections never raise the limit. -/
theorem foldl_narrow_le (limit : Nat) (sections : List Section) :
    sections.foldl narrow limit ≤ limit := by
  induction sections generalizing limit with
  | nil => exact Nat.le_refl _
  | cons s sections ih => exact Nat.le_trans (ih _) (narrow_le limit s)

/-- Headers have no more room than what lies in front of the data of each section. -/
theorem headerLimit_le (h : ImageHeaders) {sections : List Section} {s : Section}
    (hs : s ∈ sections) (hz : s.rawSize ≠ 0) (hp : s.rawStart ≠ 0) :
    headerLimit h sections ≤ s.rawStart := by
  obtain ⟨before, after, rfl⟩ := List.append_of_mem hs
  rw [headerLimit, List.foldl_append, List.foldl_cons]
  refine Nat.le_trans (foldl_narrow_le _ _) ?_
  rw [narrow, if_pos (by simp [hz, hp])]
  exact Nat.min_le_right _ _

end Grown

end CilRestore
