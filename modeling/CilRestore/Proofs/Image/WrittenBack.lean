import CilRestore.Proofs.Image.Frame

/-!
# Headers that are written back

The optional header has a size by its form, and the file header states another one. Where the stated
size is not the larger one, headers that are written back change the counts and sizes that were
edited and nothing else. Where it is, what is behind the optional header moves to the front by the
bytes that the optional header lacks, and the table of sections and all data with it
(`ImageHeaders.write_frame`).
-/

namespace CilRestore

namespace ImageHeaders

variable {file : Bytes} {h h' : ImageHeaders}

/-- Behind the headers a file holds, closer to its front, what it held. -/
theorem EditOf.getElem?_write_behind (he : EditOf h h') (hd : h.fileStart ≤ file.length) {i : Nat}
    (hi : h.tableStart ≤ i) :
    (h'.write file)[i - (h.optionalSize - OptionalHeader.size h.is64)]? = file[i]? := by
  have hfs := he.fileStart_eq
  have hos := he.optionalStart_eq
  have htab : h.tableStart = h.optionalStart + h.optionalSize := rfl
  have hopt : h.optionalStart = h.fileStart + FileHeader.size := rfl
  rw [getElem?_write_cut he.length_file (by omega), he.length_optional, he.optionalSize_eq,
    if_neg (by omega), if_neg (by omega), if_neg (by omega), Nat.sub_add_cancel (by omega)]

/-- Writing edited headers shortens the file by what the optional header is longer than its form. -/
theorem EditOf.length_write (he : EditOf h h') (hin : h.tableStart ≤ file.length) :
    (h'.write file).length + (h.optionalSize - OptionalHeader.size h.is64) = file.length := by
  have hfs := he.fileStart_eq
  have htab : h.tableStart = h.fileStart + FileHeader.size + h.optionalSize := rfl
  simp only [write_eq he.length_file (by omega : h'.fileStart ≤ file.length), List.length_append,
    List.length_take, List.length_drop, he.length_file, he.length_optional, he.optionalSize_eq,
    he.tableStart_eq]
  omega

/-- The file holds the headers that were written. -/
theorem EditOf.slice_write (he : EditOf h h') (hd : h.fileStart ≤ file.length) :
    Bytes.slice (h'.write file) h.fileStart FileHeader.size = h'.file ∧
      Bytes.slice (h'.write file) h.optionalStart
          (min h.optionalSize (OptionalHeader.size h.is64)) =
        h'.optional.take h.optionalSize := by
  have hfs := he.fileStart_eq
  have hos := he.optionalStart_eq
  have hopt : h.optionalStart = h.fileStart + FileHeader.size := rfl
  have hget := getElem?_write_cut he.length_file (by omega : h'.fileStart ≤ file.length)
  rw [he.length_optional, he.optionalSize_eq, hfs, hos] at hget
  have htake : (h'.optional.take h.optionalSize).length =
      min h.optionalSize (OptionalHeader.size h.is64) := by
    rw [List.length_take, he.length_optional]
  constructor
  · rw [← he.length_file, Bytes.slice_eq_iff]
    intro i hi
    rw [he.length_file] at hi
    rw [hget, if_neg (by omega), if_pos (by omega), Nat.add_sub_cancel_left]
  · rw [← htake, Bytes.slice_eq_iff]
    intro i hi
    rw [htake] at hi
    rw [hget, if_neg (by omega), if_neg (by omega), if_pos (by omega), Nat.add_sub_cancel_left,
      List.getElem?_take, if_pos (by omega)]

/-- Headers that were read and edited are written back, and the file holds them. What is beside the
counts and sizes that they edit stays, up to the end of the optional header; what is behind moves to
the front by the bytes that the optional header lacks. So the file keeps its length, and all its
other bytes their places, if the stated size is no larger than the optional header, and only then.
-/
theorem write_frame (hread : read file = .ok h) (hin : h.tableStart ≤ file.length)
    (he : EditOf h h') :
    (h.optionalSize ≤ OptionalHeader.size h.is64 → (h'.write file).length = file.length ∧
      ∀ i, ¬ h.Counts i → (h'.write file)[i]? = file[i]?) ∧
    (OptionalHeader.size h.is64 < h.optionalSize →
      (h'.write file).length + (h.optionalSize - OptionalHeader.size h.is64) = file.length ∧
      (∀ i < h.optionalStart + OptionalHeader.size h.is64, ¬ h.Counts i →
        (h'.write file)[i]? = file[i]?) ∧
      ∀ i, h.tableStart ≤ i → (h'.write file)[i - (h.optionalSize - OptionalHeader.size h.is64)]? =
        file[i]?) ∧
    Bytes.slice (h'.write file) h.fileStart FileHeader.size = h'.file ∧
    Bytes.slice (h'.write file) h.optionalStart (min h.optionalSize (OptionalHeader.size h.is64)) =
      h'.optional.take h.optionalSize := by
  obtain ⟨-, hat⟩ := read_eq_ok.mp hread
  have htab : h.tableStart = h.fileStart + FileHeader.size + h.optionalSize := rfl
  have hopt : h.optionalStart = h.fileStart + FileHeader.size := rfl
  have hd : h.fileStart ≤ file.length := by omega
  have hlength := he.length_write hin
  -- in front of the headers, in them, and so up to where the optional header ends
  have hfront : ∀ i < h.optionalStart + min h.optionalSize (OptionalHeader.size h.is64),
      ¬ h.Counts i → (h'.write file)[i]? = file[i]? := by
    intro i hi hcount
    by_cases hl : h.fileStart ≤ i
    · rw [hat] at he hi hcount hl hd
      exact he.getElem?_write_front hd (he.sameAt hcount) hl hi
    · have hfs := he.fileStart_eq
      rw [getElem?_write_cut he.length_file (by omega), if_pos (by omega)]
  refine ⟨fun hle => ⟨by omega, fun i hcount => ?_⟩, fun hlt => ⟨by omega, fun i hi => ?_, ?_⟩,
    he.slice_write hd⟩
  · by_cases hi : i < h.tableStart
    · exact hfront i (by omega) hcount
    · have hbehind := he.getElem?_write_behind hd (Nat.le_of_not_lt hi)
      rwa [Nat.sub_eq_zero_of_le hle, Nat.sub_zero] at hbehind
  · exact hfront i (by omega)
  · intro i hi
    exact he.getElem?_write_behind hd hi

/-- A small image of which the file header states eight bytes more for the optional header than it
has. The table of sections stands behind these. -/
def looseImage : Bytes :=
  let table := 64 + 4 + FileHeader.size + OptionalHeader.size false
  let file := SmallImage.image 64 0 0x1000 0x1000 4 [0x06, 0x2A, 0, 0]
  let file := Bytes.splice file 84 86 (Bytes.ofNumber 2 (OptionalHeader.size false + 8))
  let file := Bytes.splice file (table + 20) (table + 24)
    (Bytes.ofNumber 4 (SmallImage.front 64 + 8))
  file.take table ++ Bytes.zeros 8 ++ file.drop table

/-- The table of sections of a small image is not where it was when headers are written back with
another number of sections. -/
theorem write_frame_of_loose : ∃ h h', read looseImage = .ok h ∧ EditOf h h' ∧
    h'.sectionCount = 2 ∧ (h'.write looseImage).length + 8 = looseImage.length ∧
    ∀ i < Section.headerSize, (h'.write looseImage)[h.tableStart - 8 + i]? =
      looseImage[h.tableStart + i]? := by
  let h := SmallImage.headers looseImage 64
  have hread : read looseImage = .ok h := Sequence.toOption_eq_some.mp (by decide +kernel)
  have hedit : EditOf h (h.modifyFile FileHeader.numberOfSections (· + 1)) :=
    EditOf.addSections (.refl (read_eq_ok.mp hread).1) _
  have hexcess : h.optionalSize - OptionalHeader.size h.is64 = 8 := by decide +kernel
  obtain ⟨-, hloose, -⟩ := write_frame hread (by decide +kernel) hedit
  rw [hexcess] at hloose
  obtain ⟨hlength, -, hmoves⟩ := hloose (by decide +kernel)
  refine ⟨h, _, hread, hedit, by decide +kernel, hlength, fun i _ => ?_⟩
  rw [← Nat.sub_add_comm (by decide +kernel : 8 ≤ h.tableStart)]
  exact hmoves _ (Nat.le_add_right _ _)

/-- Headers that are written back as they were read make that image shorter: not every stated size
of the optional header keeps the rest of a file. -/
theorem write_shortens_loose : ¬ ∀ (file : Bytes) (h h' : ImageHeaders), read file = .ok h →
    h.tableStart ≤ file.length → EditOf h h' → (h'.write file).length = file.length ∧
      ∀ i, ¬ h.Counts i → (h'.write file)[i]? = file[i]? := by
  intro hall
  let h := SmallImage.headers looseImage 64
  have hread : read looseImage = .ok h := Sequence.toOption_eq_some.mp (by decide +kernel)
  obtain ⟨hlength, -⟩ := hall looseImage h h hread (by decide +kernel)
    (.refl (read_eq_ok.mp hread).1)
  exact absurd hlength (by decide +kernel)

end ImageHeaders

end CilRestore
