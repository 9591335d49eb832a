import CilRestore.Proofs.Image.Reading

/-!
# Headers inside the file

Whatever a file holds, its bytes tell what reading the headers and the table of sections answers.
Where headers are answered they and all section headers stand inside the file
(`Section.IsWithin`); otherwise the file has no headers, or its table of sections ends behind it.
One kind of file is beside these: one that ends inside of headers of 64 bits, but behind the bytes
that headers of 32 bits would take (`ImageHeaders.IsCutShort`). `Section.readAll_within` puts the
cases together.
-/

namespace CilRestore

namespace ImageHeaders

/-- Where the old header says that the new one starts. -/
def statedStart (data : Bytes) : Nat := Bytes.field data 60 4

/-- Headers of 64 bits that the file ends inside of, but not so early that headers of 32 bits would
not fit either. -/
structure IsCutShort (data : Bytes) : Prop where
  /-- The old header is there. -/
  old : oldHeaderSize ≤ data.length
  /-- It has its signature. -/
  oldSignature_eq : Bytes.field data 0 2 = oldSignature
  /-- The new headers say that they have the form of 64 bits. -/
  wide : (atStart data (statedStart data)).is64 = true
  /-- Headers of 32 bits would fit. -/
  narrow_le : statedStart data + 4 + FileHeader.size + OptionalHeader.size false ≤ data.length
  /-- Those of 64 bits do not. -/
  lt_wide : data.length < statedStart data + 4 + FileHeader.size + OptionalHeader.size true

variable {data : Bytes}

/-- Reading the headers of a file that is cut short meets a range that is not there. -/
theorem read_of_isCutShort (h : IsCutShort data) : read data = .error .badValue := by
  obtain ⟨hold, hsignature, hwide, hnarrow, hlt⟩ := h
  simp only [statedStart, atStart] at hwide hnarrow hlt
  unfold read
  simp only
  rw [if_neg (by omega), if_neg, if_pos]
  · rfl
  · simp only [Bool.and_eq_true, decide_eq_true_eq]
    exact ⟨of_decide_eq_true hwide, hlt⟩
  · simp only [ne_eq, Bool.or_eq_true, decide_eq_true_eq, not_or, Decidable.not_not]
    exact ⟨hsignature, by omega⟩

/-- There are two ways in which headers cannot be read: the file is cut short, or it is no .NET
file. -/
theorem error_of_read {e : Fault} (h : read data = .error e) :
    (IsCutShort data ∧ e = .badValue) ∨ (¬ IsCutShort data ∧ e = .notDotNet) := by
  by_cases hcut : IsCutShort data
  · rw [read_of_isCutShort hcut] at h
    cases h
    exact Or.inl ⟨hcut, rfl⟩
  · refine Or.inr ⟨hcut, ?_⟩
    unfold read at h
    simp only at h
    split at h
    · cases h
      rfl
    split at h
    · cases h
      rfl
    split at h
    · rename_i hold hfit hwide
      simp only [ne_eq, Bool.or_eq_true, decide_eq_true_eq, not_or, Decidable.not_not,
        Bool.and_eq_true] at hfit hwide
      exact absurd ⟨Nat.le_of_not_lt hold, hfit.1, decide_eq_true hwide.1,
        Nat.le_of_not_lt hfit.2, hwide.2⟩ hcut
    split at h
    · cases h
      rfl
    · cases h

end ImageHeaders

namespace Section

variable {data : Bytes} {h : ImageHeaders} {sections : List Section}

/-- Headers and section headers that are those of a file and stand inside of it. -/
structure IsWithin (data : Bytes) (h : ImageHeaders) (sections : List Section) : Prop where
  /-- The magic number selects the form of the optional header. -/
  form : h.is64 = true ↔ Bytes.field data h.optionalStart 2 = ImageHeaders.magic64
  /-- The file header is in the file. -/
  file_eq : h.file = Bytes.slice data h.fileStart FileHeader.size
  /-- The optional header is in the file, all of it. -/
  optional_eq : h.optional = Bytes.slice data h.optionalStart (OptionalHeader.size h.is64)
  /-- Both end inside the file. -/
  headers_le : h.optionalStart + OptionalHeader.size h.is64 ≤ data.length
  /-- There are as many section headers as the file header says. -/
  length_eq : sections.length = h.sectionCount
  /-- They follow each other from the start of the table on, each of them inside the file. -/
  section_eq : ∀ k s, sections[k]? = some s → s.offset = h.tableStart + k * headerSize ∧
    s.block = Bytes.slice data s.offset headerSize ∧ s.offset + headerSize ≤ data.length

/-- The table of sections that the headers of a file state ends behind the file. -/
def TableLeaves (data : Bytes) (h : ImageHeaders) : Prop :=
  h.sectionCount ≠ 0 ∧ data.length < h.tableStart + h.sectionCount * headerSize

/-- What can be read of a file stands inside of it. -/
theorem isWithin_of_readAll (hread : readAll data = .ok (h, sections)) :
    IsWithin data h sections := by
  obtain ⟨hstand, hheaders, htable, hsections⟩ := readAll_eq_ok.mp hread
  have hinside := hstand.inside
  have hform : h.is64 = (ImageHeaders.atStart data h.start).is64 := congrArg _ hheaders
  rw [← hform] at hinside
  refine ⟨?_, congrArg ImageHeaders.file hheaders, ?_, hinside, ?_, ?_⟩
  · rw [hform]
    exact decide_eq_true_iff
  · rw [hform]
    exact congrArg ImageHeaders.optional hheaders
  · rw [hsections, listFrom, List.length_map, List.length_range]
  · intro k s hs
    rw [hsections, listFrom, List.getElem?_map, Option.map_eq_some_iff] at hs
    obtain ⟨place, hplace, rfl⟩ := hs
    obtain ⟨hk, rfl⟩ := List.getElem?_eq_some_iff.mp hplace
    rw [List.length_range] at hk
    have hend := Nat.mul_le_mul_right headerSize (Nat.succ_le_of_lt hk)
    rw [Nat.succ_mul] at hend
    rw [List.getElem_range]
    refine ⟨rfl, rfl, ?_⟩
    rcases htable with hnone | htable
    · omega
    · simp only
      omega

/-- Section headers cannot be read where one of them would end behind the file. -/
theorem error_of_readFrom {e : Fault} {count start : Nat}
    (hread : readFrom data count start = .error e) :
    e = .reconstruction "section table out of bounds" ∧ count ≠ 0 ∧
      data.length < start + count * headerSize := by
  have hbounds : ¬ (count = 0 ∨ start + count * headerSize ≤ data.length) := by
    intro hbounds
    rw [readFrom_eq_ok.mpr ⟨hbounds, rfl⟩] at hread
    cases hread
  refine ⟨?_, by omega, by omega⟩
  clear hbounds
  induction count generalizing start with
  | zero => cases hread
  | succ count ih =>
    rw [readFrom] at hread
    split at hread
    · cases hread
      rfl
    · exact ih (Sequence.map_eq_error.mp hread)

/-- Reading a file answers headers and section headers that stand inside of it, or else the file
has no headers or states a table of sections that ends behind it, and that is then what the fault
says. Only a file that ends inside of headers of 64 bits fails in another way. -/
theorem readAll_within (data : Bytes) :
    (∃ h sections, readAll data = .ok (h, sections) ∧ IsWithin data h sections) ∨
      ((∀ start, ¬ ImageHeaders.StandAt data start) ∧ ¬ ImageHeaders.IsCutShort data ∧
        readAll data = .error .notDotNet) ∨
      (∃ h, ImageHeaders.read data = .ok h ∧ TableLeaves data h ∧
        readAll data = .error (.reconstruction "section table out of bounds")) ∨
      (ImageHeaders.IsCutShort data ∧ readAll data = .error .badValue) := by
  cases hread : ImageHeaders.read data with
  | error e =>
    have hall : readAll data = .error e := Sequence.bind_eq_error.mpr (Or.inl hread)
    have hnone : ∀ start, ¬ ImageHeaders.StandAt data start := by
      intro start hstand
      have hok : ImageHeaders.read data = .ok (ImageHeaders.atStart data start) :=
        ImageHeaders.read_eq_ok.mpr ⟨hstand, rfl⟩
      rw [hok] at hread
      cases hread
    rcases ImageHeaders.error_of_read hread with ⟨hcut, rfl⟩ | ⟨hcut, rfl⟩
    · exact Or.inr (Or.inr (Or.inr ⟨hcut, hall⟩))
    · exact Or.inr (Or.inl ⟨hnone, hcut, hall⟩)
  | ok h =>
    cases htable : readTable data h with
    | error e =>
      have hall : readAll data = .error e :=
        Sequence.bind_eq_error.mpr (Or.inr ⟨h, hread, Sequence.bind_eq_error.mpr (Or.inl htable)⟩)
      obtain ⟨rfl, hleaves⟩ := error_of_readFrom htable
      exact Or.inr (Or.inr (Or.inl ⟨h, rfl, hleaves, hall⟩))
    | ok sections =>
      have hall : readAll data = .ok (h, sections) :=
        Sequence.bind_eq_ok.mpr ⟨h, hread, Sequence.bind_eq_ok.mpr ⟨sections, htable, rfl⟩⟩
      exact Or.inl ⟨h, sections, hall, isWithin_of_readAll hall⟩

/-! ### A file that is cut short -/

/-- A file that ends 16 bytes in front of the end of its headers of 64 bits. -/
def cutShort : Bytes :=
  -- the old header, which names the place behind it
  [0x4D, 0x5A] ++ Bytes.zeros 58 ++ [64, 0, 0, 0] ++
  -- the new one: signature, file header, magic number, and 16 bytes less than the rest
  [0x50, 0x45, 0, 0] ++ Bytes.zeros 20 ++ [0x0B, 0x02] ++ Bytes.zeros 222

/-- Neither headers nor the fault of a file without them are the answer for a file that is cut
short. -/
theorem readAll_misses_end :
    readAll cutShort = .error .badValue ∧
      ¬ ((∃ h sections, readAll cutShort = .ok (h, sections)) ∨
        readAll cutShort = .error .notDotNet ∨
        ∃ reason, readAll cutShort = .error (.reconstruction reason)) := by
  have hcut : ImageHeaders.IsCutShort cutShort := by
    constructor <;> decide +kernel
  have hread : readAll cutShort = .error .badValue :=
    Sequence.bind_eq_error.mpr (Or.inl (ImageHeaders.read_of_isCutShort hcut))
  refine ⟨hread, ?_⟩
  rw [hread]
  rintro (⟨h, sections, hok⟩ | hfault | ⟨reason, hfault⟩)
  · cases hok
  · cases hfault
  · cases hfault

end Section

end CilRestore
