import CilRestore.Proofs.Image.Reading

/-!
# Pasting headers

Setting a field keeps the fields beside it. Headers of which counts and sizes were changed
(`ImageHeaders.EditOf`) and that are pasted into a file change the bytes of these fields only
(`EditOf.getElem?_write`). They are read back from it, in the place where the old ones were and with
the table of sections where it was, unless one of the fields lies over the place of the headers.
-/

namespace CilRestore

/-- A place holds a byte of a field of a block that starts at another place. -/
def Field.CoversAt (f : Field) (start place : Nat) : Prop :=
  start + f.offset ≤ place ∧ place < start + f.offset + f.width

instance (f : Field) (start place : Nat) : Decidable (f.CoversAt start place) :=
  inferInstanceAs (Decidable (_ ∧ _))

/-- Setting a field changes its bytes only. -/
theorem Field.getElem?_set {f : Field} {block : Bytes} (h : f.offset + f.width ≤ block.length)
    (value : Int) {i : Nat} (hi : ¬ f.CoversAt 0 i) : (f.set value block)[i]? = block[i]? := by
  rw [CoversAt, Nat.zero_add] at hi
  rw [set, Bytes.getElem?_splice (by omega) (Nat.le_add_right _ _) (by simp), if_neg hi]

/-- Setting a field keeps what lies apart from it. -/
theorem Field.sameOn_set {f : Field} {block : Bytes} (h : f.offset + f.width ≤ block.length)
    (value : Int) {start count : Nat} (ha : Bytes.Apart f.offset f.width start count) :
    Bytes.SameOn block (f.set value block) start count :=
  Bytes.sameOn_splice (by omega) (Nat.le_add_right _ _) (by simp)
    (by rwa [Nat.add_sub_cancel_left])

/-- Setting a field keeps the fields that have no byte in common with it. -/
theorem Field.get_set_of_apart {f g : Field} {block : Bytes}
    (h : f.offset + f.width ≤ block.length) (value : Int)
    (ha : Bytes.Apart f.offset f.width g.offset g.width) :
    g.get (f.set value block) = g.get block :=
  (Field.sameOn_set h value ha).field_eq

/-- A number that fits a field is read back from it. -/
theorem Field.get_set_natCast {f : Field} {block : Bytes} (h : f.offset + f.width ≤ block.length)
    {value : Nat} (hv : value < 256 ^ f.width) : f.get (f.set (value : Int) block) = value := by
  rw [Field.get_set h, Int.emod_eq_of_lt (by omega) (by exact_mod_cast hv), Int.toNat_natCast]

theorem Field.get_lt (f : Field) (block : Bytes) : f.get block < 256 ^ f.width := by
  have hlt := Bytes.number_lt (Bytes.slice block f.offset f.width)
  have hle : (Bytes.slice block f.offset f.width).length ≤ f.width := by
    rw [Bytes.slice, List.length_take]
    exact Nat.min_le_left _ _
  exact Nat.lt_of_lt_of_le hlt (Nat.pow_le_pow_right (by decide) hle)

namespace ImageHeaders

/-- The sizes that headers state and that growing a file changes. -/
def sizeFields : List Field :=
  [OptionalHeader.sizeOfCode, OptionalHeader.sizeOfInitializedData, OptionalHeader.sizeOfImage]

/-- A place in a file holds a byte of the number of sections or of one of those sizes. The optional
header may be too short for the sizes. -/
def Counts (h : ImageHeaders) (place : Nat) : Prop :=
  FileHeader.numberOfSections.CoversAt h.fileStart place ∨
    place < h.tableStart ∧ ∃ f ∈ sizeFields, f.CoversAt h.optionalStart place

instance (h : ImageHeaders) (place : Nat) : Decidable (h.Counts place) :=
  inferInstanceAs (Decidable (_ ∨ _))

/-- A place in a file holds a byte of some fields of the file header or of the optional header,
which may be too short for them. -/
def InFields (h : ImageHeaders) (inFile inOptional : List Field) (place : Nat) : Prop :=
  (∃ f ∈ inFile, f.CoversAt h.fileStart place) ∨
    place < h.tableStart ∧ ∃ f ∈ inOptional, f.CoversAt h.optionalStart place

instance (h : ImageHeaders) (inFile inOptional : List Field) (place : Nat) :
    Decidable (h.InFields inFile inOptional place) :=
  inferInstanceAs (Decidable (_ ∨ _))

/-- What growing counts are the number of sections and the sizes. -/
theorem counts_iff {h : ImageHeaders} {place : Nat} :
    h.Counts place ↔ h.InFields [FileHeader.numberOfSections] sizeFields place := by
  rw [Counts, InFields]
  simp only [List.mem_singleton, exists_eq_left]

/-- The table of sections starts where the place of the headers and the file header say. -/
theorem tableStart_congr {h h' : ImageHeaders} (hs : h'.start = h.start) (hf : h'.file = h.file) :
    h'.tableStart = h.tableStart := by
  rw [tableStart, tableStart, optionalSize, optionalSize, optionalStart, optionalStart, fileStart,
    fileStart, hs, hf]

/-- Where those fields lie does not depend on what they hold. -/
theorem counts_congr {h h' : ImageHeaders} (hs : h'.start = h.start) (hf : h'.file = h.file)
    {place : Nat} : h'.Counts place ↔ h.Counts place := by
  rw [Counts, Counts, tableStart_congr hs hf, optionalStart, optionalStart, fileStart, fileStart,
    hs]

/-- Headers that are others with some counts and sizes changed. -/
structure EditOf (h h' : ImageHeaders) : Prop where
  /-- They belong where the others do. -/
  start_eq : h'.start = h.start
  /-- They have the same form. -/
  is64_eq : h'.is64 = h.is64
  /-- The file header is as long as it has to be. -/
  length_file : h'.file.length = FileHeader.size
  /-- Only the number of sections differs in it. -/
  file_same : ∀ i, ¬ FileHeader.numberOfSections.CoversAt 0 i → h'.file[i]? = h.file[i]?
  /-- The optional header is as long as it has to be. -/
  length_optional : h'.optional.length = OptionalHeader.size h.is64
  /-- Only sizes differ in it. -/
  optional_same : ∀ i, (∀ f ∈ sizeFields, ¬ f.CoversAt 0 i) → h'.optional[i]? = h.optional[i]?

theorem length_file_atStart {data : Bytes} {start : Nat} (h : StandAt data start) :
    (atStart data start).file.length = FileHeader.size :=
  Bytes.length_slice (by have := h.inside; omega)

theorem length_optional_atStart {data : Bytes} {start : Nat} (h : StandAt data start) :
    (atStart data start).optional.length = OptionalHeader.size (atStart data start).is64 :=
  Bytes.length_slice h.inside

/-- Sizes stand in front of the directories of the optional header. -/
theorem sizeFields_le {f : Field} (hf : f ∈ sizeFields) (is64 : Bool) :
    4 ≤ f.offset ∧ f.offset + f.width ≤ OptionalHeader.size is64 := by
  have h : ∀ f ∈ sizeFields, 4 ≤ f.offset ∧ f.offset + f.width ≤ 64 := by decide
  have hmin : 64 ≤ OptionalHeader.size is64 := by cases is64 <;> decide
  have := h f hf
  omega

namespace EditOf

variable {h h' : ImageHeaders}

theorem refl {data : Bytes} {start : Nat} (h : StandAt data start) :
    EditOf (atStart data start) (atStart data start) :=
  ⟨rfl, rfl, length_file_atStart h, fun _ _ => rfl, length_optional_atStart h, fun _ _ => rfl⟩

/-- The number of sections may change. -/
theorem addSections (he : EditOf h h') (change : Int → Int) :
    EditOf h (h'.modifyFile FileHeader.numberOfSections change) := by
  have hfit : FileHeader.numberOfSections.offset + FileHeader.numberOfSections.width ≤
      h'.file.length := by
    rw [he.length_file]
    decide
  refine ⟨he.start_eq, he.is64_eq, ?_, fun i hi => ?_, he.length_optional, he.optional_same⟩
  · exact (Field.length_set hfit _).trans he.length_file
  · exact (Field.getElem?_set hfit _ hi).trans (he.file_same i hi)

/-- The sizes lie inside the optional header. -/
theorem sizeField_le (he : EditOf h h') {f : Field} (hf : f ∈ sizeFields) :
    f.offset + f.width ≤ h'.optional.length := by
  rw [he.length_optional]
  exact (sizeFields_le hf _).2

/-- Sizes may change. -/
theorem modifyOptional (he : EditOf h h') {f : Field} (hf : f ∈ sizeFields) (change : Int → Int) :
    EditOf h (h'.modifyOptional f change) := by
  have hfit := he.sizeField_le hf
  refine ⟨he.start_eq, he.is64_eq, he.length_file, he.file_same, ?_, fun i hi => ?_⟩
  · exact (Field.length_set hfit _).trans he.length_optional
  · exact (Field.getElem?_set hfit _ (hi f hf)).trans (he.optional_same i hi)

/-- The optional header takes the same bytes of the file. -/
theorem optionalSize_eq (he : EditOf h h') : h'.optionalSize = h.optionalSize := by
  refine Bytes.SameOn.field_eq fun i hl _ => he.file_same i ?_
  have hfield : FileHeader.sizeOfOptionalHeader.offset = 16 := rfl
  simp only [Field.CoversAt, FileHeader.numberOfSections]
  omega

/-- The alignment of sections is no size. -/
theorem sectionAlignment_eq (he : EditOf h h') : h'.sectionAlignment = h.sectionAlignment := by
  have hapart : ∀ f ∈ sizeFields, Bytes.Apart OptionalHeader.sectionAlignment.offset
      OptionalHeader.sectionAlignment.width f.offset f.width := by decide
  refine Bytes.SameOn.field_eq fun i hl hu => he.optional_same i fun f hf hc => ?_
  have := hapart f hf
  simp only [Bytes.Apart, Field.CoversAt] at this hc
  omega

theorem fileStart_eq (he : EditOf h h') : h'.fileStart = h.fileStart := by
  rw [fileStart, fileStart, he.start_eq]

theorem optionalStart_eq (he : EditOf h h') : h'.optionalStart = h.optionalStart := by
  rw [optionalStart, optionalStart, he.fileStart_eq]

/-- Edited headers have the table of sections where it was. -/
theorem tableStart_eq (he : EditOf h h') : h'.tableStart = h.tableStart := by
  rw [tableStart, tableStart, he.optionalStart_eq, he.optionalSize_eq]

end EditOf

/-- Headers that say what others say, as far as the optional header of those goes into the file. -/
structure Agrees (h h' : ImageHeaders) : Prop where
  /-- They belong where the others do. -/
  start_eq : h'.start = h.start
  /-- They have the same form. -/
  is64_eq : h'.is64 = h.is64
  /-- The file header is the same. -/
  file_eq : h'.file = h.file
  /-- The optional header is, where the file has it. -/
  optional_same : ∀ i < h.optionalSize, h'.optional[i]? = h.optional[i]?

/-- Fields that the file has say the same. -/
theorem Agrees.get_eq {h h' : ImageHeaders} (ha : Agrees h h') {f : Field}
    (hf : f.offset + f.width ≤ h.optionalSize) : f.get h'.optional = f.get h.optional :=
  Bytes.SameOn.field_eq fun i _ hu => ha.optional_same i (by omega)

/-! ### Writing headers -/

variable {h : ImageHeaders} {data : Bytes}

/-- Pasted headers stand between what was in front of the file header and what was behind the bytes
that the optional header took. -/
theorem write_eq (hf : h.file.length = FileHeader.size) (hd : h.fileStart ≤ data.length) :
    h.write data = data.take h.fileStart ++ (h.file ++
      (h.optional.take h.optionalSize ++ data.drop h.tableStart)) := by
  have hopt : h.optionalStart = h.fileStart + FileHeader.size := rfl
  have htab : h.tableStart = h.optionalStart + h.optionalSize := rfl
  have hfront : (data.take h.fileStart ++ h.file).length = h.optionalStart := by
    rw [List.length_append, List.length_take]
    omega
  have hinner : Bytes.splice data h.fileStart h.optionalStart h.file =
      data.take h.fileStart ++ h.file ++ data.drop h.optionalStart := by
    rw [Bytes.splice, Nat.max_eq_right (by omega)]
  rw [write, hinner, Bytes.splice, ← htab, Nat.max_eq_right (by omega), ← hfront, List.take_left,
    List.drop_append, List.drop_of_length_le (by omega), List.nil_append, List.drop_drop, hfront,
    Nat.add_sub_cancel' (by omega : h.optionalStart ≤ h.tableStart), List.append_assoc,
    List.append_assoc]

/-- What was behind an optional header that took more bytes than it has moves to the front by
these. -/
theorem getElem?_write_cut (hf : h.file.length = FileHeader.size) (hd : h.fileStart ≤ data.length)
    (i : Nat) : (h.write data)[i]? =
      if i < h.fileStart then data[i]?
      else if i < h.optionalStart then h.file[i - h.fileStart]?
      else if i < h.optionalStart + min h.optionalSize h.optional.length then
        h.optional[i - h.optionalStart]?
      else data[i + (h.optionalSize - h.optional.length)]? := by
  have hopt : h.optionalStart = h.fileStart + FileHeader.size := rfl
  have htab : h.tableStart = h.optionalStart + h.optionalSize := rfl
  have hfront : (data.take h.fileStart).length = h.fileStart := by
    rw [List.length_take]
    omega
  have hlast : (h.optional.take h.optionalSize).length =
      min h.optionalSize h.optional.length := List.length_take
  rw [write_eq hf hd]
  split
  · rw [List.getElem?_append_left (by omega), List.getElem?_take, if_pos (by assumption)]
  rw [List.getElem?_append_right (by omega), hfront]
  split
  · rw [List.getElem?_append_left (by omega)]
  rw [List.getElem?_append_right (by omega), hf, Nat.sub_sub, ← hopt]
  split
  · rw [List.getElem?_append_left (by omega), List.getElem?_take, if_pos (by omega)]
  · rw [List.getElem?_append_right (by omega), hlast, List.getElem?_drop]
    congr 1
    omega

/-- Pasted headers replace the bytes from the file header up to the table of sections. -/
theorem getElem?_write (hf : h.file.length = FileHeader.size)
    (ho : h.optionalSize ≤ h.optional.length) (hd : h.tableStart ≤ data.length) (i : Nat) :
    (h.write data)[i]? =
      if h.optionalStart ≤ i ∧ i < h.tableStart then h.optional[i - h.optionalStart]?
      else if h.fileStart ≤ i ∧ i < h.optionalStart then h.file[i - h.fileStart]?
      else data[i]? := by
  have hopt : h.optionalStart = h.fileStart + FileHeader.size := rfl
  have htab : h.tableStart = h.optionalStart + h.optionalSize := rfl
  rw [getElem?_write_cut hf (by omega), Nat.min_eq_left ho, ← htab, Nat.sub_eq_zero_of_le ho,
    Nat.add_zero]
  grind

/-- Pasting headers keeps the bytes beside them. -/
theorem sameOn_write (hf : h.file.length = FileHeader.size)
    (ho : h.optionalSize ≤ h.optional.length) (hd : h.tableStart ≤ data.length) {start count : Nat}
    (ha : start + count ≤ h.fileStart ∨ h.tableStart ≤ start) :
    Bytes.SameOn data (h.write data) start count := by
  intro i hl hu
  have hopt : h.optionalStart = h.fileStart + FileHeader.size := rfl
  have htab : h.tableStart = h.optionalStart + h.optionalSize := rfl
  rw [getElem?_write hf ho hd, if_neg (by omega), if_neg (by omega)]

/-- Writing headers keeps the length of the file, unless the optional header states more bytes than
there are. -/
theorem length_write (hf : h.file.length = FileHeader.size)
    (ho : h.optionalSize ≤ h.optional.length) (hd : h.tableStart ≤ data.length) :
    (h.write data).length = data.length := by
  have hopt : h.optionalStart = h.fileStart + FileHeader.size := rfl
  have htab : h.tableStart = h.optionalStart + h.optionalSize := rfl
  simp only [write_eq hf (by omega : h.fileStart ≤ data.length), List.length_append,
    List.length_take, List.length_drop]
  omega

/-- Edited headers hold the byte of a file at a place of its headers. -/
structure SameAt (h h' : ImageHeaders) (place : Nat) : Prop where
  /-- So does the file header, if the place is in it. -/
  file : ∀ k < FileHeader.size, place = h.fileStart + k → h'.file[k]? = h.file[k]?
  /-- So does the optional header, if the place is in it. -/
  optional : ∀ k < h.optionalSize, place = h.optionalStart + k → h'.optional[k]? = h.optional[k]?

/-- Headers that differ from others in some fields only. -/
structure DiffersIn (h h' : ImageHeaders) (inFile inOptional : List Field) : Prop where
  /-- The file header is the same beside the fields in it. -/
  file_same : ∀ i, (∀ f ∈ inFile, ¬ f.CoversAt 0 i) → h'.file[i]? = h.file[i]?
  /-- So is the optional header. -/
  optional_same : ∀ i, (∀ f ∈ inOptional, ¬ f.CoversAt 0 i) → h'.optional[i]? = h.optional[i]?

/-- Outside of the fields in which they may differ headers are the same. -/
theorem DiffersIn.sameAt {h' : ImageHeaders} {inFile inOptional : List Field}
    (hd : DiffersIn h h' inFile inOptional) {place : Nat}
    (hp : ¬ h.InFields inFile inOptional place) : SameAt h h' place := by
  have htab : h.tableStart = h.optionalStart + h.optionalSize := rfl
  simp only [InFields, not_or, not_and, not_exists] at hp
  constructor
  · rintro k - rfl
    refine hd.file_same k fun f hf hc => hp.1 f hf ?_
    rw [Field.CoversAt] at hc ⊢
    omega
  · rintro k hk rfl
    refine hd.optional_same k fun f hf hc => hp.2 (by omega) f hf ?_
    rw [Field.CoversAt] at hc ⊢
    omega

namespace DiffersIn

variable {h' : ImageHeaders} {inFile inOptional : List Field}

/-- Changing one of those fields in the file header is such a difference. -/
theorem modifyFile (hd : DiffersIn h h' inFile inOptional) {f : Field} (hf : f ∈ inFile)
    (hfit : f.offset + f.width ≤ h'.file.length) (change : Int → Int) :
    DiffersIn h (h'.modifyFile f change) inFile inOptional where
  file_same i hi := (Field.getElem?_set hfit _ (hi f hf)).trans (hd.file_same i hi)
  optional_same := hd.optional_same

/-- So is changing one in the optional header. -/
theorem modifyOptional (hd : DiffersIn h h' inFile inOptional) {f : Field} (hf : f ∈ inOptional)
    (hfit : f.offset + f.width ≤ h'.optional.length) (change : Int → Int) :
    DiffersIn h (h'.modifyOptional f change) inFile inOptional where
  file_same := hd.file_same
  optional_same i hi := (Field.getElem?_set hfit _ (hi f hf)).trans (hd.optional_same i hi)

end DiffersIn

/-- Edited headers are the same but for counts and sizes. -/
theorem EditOf.sameAt {h' : ImageHeaders} (he : EditOf h h') {place : Nat}
    (hp : ¬ h.Counts place) : SameAt h h' place :=
  DiffersIn.sameAt ⟨fun i hi => he.file_same i (hi _ (List.mem_singleton_self _)),
    he.optional_same⟩ (mt counts_iff.mpr hp)

/-- Pasting edited headers of a file into what became of it brings back the bytes that are the same
in them, as far as the headers go. -/
theorem EditOf.getElem?_write_front {start : Nat} {h' : ImageHeaders} {changed : Bytes}
    (he : EditOf (atStart data start) h')
    (hlen : (atStart data start).fileStart ≤ changed.length) {i : Nat}
    (hsame : SameAt (atStart data start) h' i) (hl : (atStart data start).fileStart ≤ i)
    (hu : i < (atStart data start).optionalStart +
      min (atStart data start).optionalSize (OptionalHeader.size (atStart data start).is64)) :
    (h'.write changed)[i]? = data[i]? := by
  have hstart : h'.start = start := he.start_eq
  have hfs : h'.fileStart = start + 4 := by rw [fileStart, hstart]
  have hos : h'.optionalStart = start + 4 + FileHeader.size := by rw [optionalStart, hfs]
  have hbase : (atStart data start).fileStart = start + 4 := rfl
  have hobase : (atStart data start).optionalStart = start + 4 + FileHeader.size := rfl
  rw [getElem?_write_cut he.length_file (by omega), he.length_optional, he.optionalSize_eq,
    if_neg (by omega)]
  split
  · rw [hsame.file _ (by omega) (by omega)]
    simp only [atStart]
    rw [Bytes.getElem?_slice, if_pos (by omega)]
    congr 1
    omega
  · rw [if_pos (by omega), hsame.optional _ (by omega) (by omega)]
    have hlt : i - h'.optionalStart < OptionalHeader.size (atStart data start).is64 := by omega
    simp only [atStart] at hlt ⊢
    rw [Bytes.getElem?_slice, if_pos hlt]
    congr 1
    omega

/-- Pasting edited headers of a file into what became of it brings back the bytes that are the same
in them, and keeps what is beside the headers. -/
theorem EditOf.getElem?_write {start : Nat} {h' : ImageHeaders} {changed : Bytes}
    (he : EditOf (atStart data start) h')
    (hopt : (atStart data start).optionalSize ≤ OptionalHeader.size (atStart data start).is64)
    (hlen : (atStart data start).tableStart ≤ changed.length) {i : Nat}
    (hsame : SameAt (atStart data start) h' i) : (h'.write changed)[i]? =
      if (atStart data start).fileStart ≤ i ∧ i < (atStart data start).tableStart then data[i]?
      else changed[i]? := by
  have htab : (atStart data start).tableStart =
      (atStart data start).optionalStart + (atStart data start).optionalSize := rfl
  have hobase : (atStart data start).optionalStart =
      (atStart data start).fileStart + FileHeader.size := rfl
  split
  · exact he.getElem?_write_front (by omega) hsame (by omega) (by omega)
  · have ho : h'.optionalSize ≤ h'.optional.length := by
      rw [he.optionalSize_eq, he.length_optional]
      exact hopt
    have hts := he.tableStart_eq
    have hfs := he.fileStart_eq
    have hos := he.optionalStart_eq
    rw [ImageHeaders.getElem?_write he.length_file ho (by omega), if_neg (by omega),
      if_neg (by omega)]

/-- Neither the two signatures nor the magic number lie under a count or a size. -/
theorem apart_of_counts {start place : Nat} (hc : (atStart data start).Counts place) :
    start + 6 ≤ place ∧ (place < start + 8 ∨ start + 4 + FileHeader.size + 4 ≤ place) := by
  have hsize : FileHeader.size = 20 := rfl
  rcases hc with hc | ⟨-, f, hf, hc⟩
  · simp only [Field.CoversAt, FileHeader.numberOfSections, fileStart, atStart] at hc
    omega
  · have := (sizeFields_le hf false).1
    simp only [Field.CoversAt, optionalStart, fileStart, atStart] at hc
    omega

/-- Pasted headers keep the signatures and the magic number. -/
theorem EditOf.getElem?_write_form {start : Nat} {h' : ImageHeaders} {changed : Bytes}
    (he : EditOf (atStart data start) h')
    (hopt : (atStart data start).optionalSize ≤ OptionalHeader.size (atStart data start).is64)
    (hlen : (atStart data start).tableStart ≤ changed.length)
    (hform : Bytes.SameOn data changed 0 (start + 4 + FileHeader.size + 2)) {i : Nat}
    (hi : i < start + 6 ∨ start + 8 ≤ i) (hlt : i < start + 4 + FileHeader.size + 2) :
    (h'.write changed)[i]? = data[i]? := by
  rw [he.getElem?_write hopt hlen (he.sameAt fun hc => by
    have := apart_of_counts hc
    omega)]
  split
  · rfl
  · exact hform i (Nat.zero_le _) (by omega)

/-- Edited headers that are pasted into a file are read back. -/
theorem EditOf.standAt_write {start : Nat} {h' : ImageHeaders} {changed : Bytes}
    (he : EditOf (atStart data start) h') (hs : StandAt data start)
    (hopt : (atStart data start).optionalSize ≤ OptionalHeader.size (atStart data start).is64)
    (hlen : data.length ≤ changed.length)
    (hform : Bytes.SameOn data changed 0 (start + 4 + FileHeader.size + 2))
    (hplace : Bytes.SameOn data (h'.write changed) 60 4) :
    StandAt (h'.write changed) start ∧ Agrees h' (atStart (h'.write changed) start) := by
  have hstart : h'.start = start := he.start_eq
  have hfs : h'.fileStart = start + 4 := by rw [fileStart, hstart]
  have hos : h'.optionalStart = start + 4 + FileHeader.size := by rw [optionalStart, hfs]
  have hts := he.tableStart_eq
  have hts' : (atStart data start).tableStart =
      start + 4 + FileHeader.size + (atStart data start).optionalSize := rfl
  have hinside := hs.inside
  have hfile := he.length_file
  have ho : h'.optionalSize ≤ h'.optional.length := by
    rw [he.optionalSize_eq, he.length_optional]
    exact hopt
  have hlength : (h'.write changed).length = changed.length := length_write hfile ho (by omega)
  have hsize : FileHeader.size = 20 := rfl
  have hkeep : ∀ i, i < start + 6 ∨ start + 8 ≤ i → i < start + 4 + FileHeader.size + 2 →
      (h'.write changed)[i]? = data[i]? := fun i =>
    he.getElem?_write_form hopt (by omega) hform
  have hmagic : Bytes.SameOn data (h'.write changed) (start + 4 + FileHeader.size) 2 :=
    fun i hl hu => hkeep i (Or.inr (by omega)) (by omega)
  have hform : (atStart (h'.write changed) start).is64 = h'.is64 := by
    rw [he.is64_eq]
    simp only [atStart]
    rw [hmagic.field_eq]
  refine ⟨hs.of_sameOn (by omega) ?_ hplace ?_ hmagic, hstart.symm, hform, ?_, fun i hi => ?_⟩
  · exact fun i _ hu => hkeep i (Or.inl (by omega)) (by omega)
  · exact fun i _ hu => hkeep i (Or.inl (by omega)) (by omega)
  · simp only [atStart]
    rw [← hfile, Bytes.slice_eq_iff]
    intro i hi
    rw [hfile] at hi
    rw [ImageHeaders.getElem?_write hfile ho (by omega), hos, hfs, if_neg (by omega),
      if_pos (by omega)]
    congr 1
    omega
  · have hlong := he.length_optional
    have hoptional : (atStart (h'.write changed) start).optional =
        Bytes.slice (h'.write changed) h'.optionalStart h'.optional.length := by
      rw [hlong, ← he.is64_eq, ← hform, hos]
      rfl
    rw [hoptional, Bytes.getElem?_slice, if_pos (by omega),
      ImageHeaders.getElem?_write hfile ho (by omega), if_pos (by rw [tableStart]; omega),
      Nat.add_sub_cancel_left]

end ImageHeaders

end CilRestore
