import CilRestore.Proofs.Image.Installed

/-!
# Data in a new section

Data that get a section of their own are found at the RVA that growing answers, in the file read
anew, and every RVA that led somewhere leads there still (`Grown.appendSection_maps`). No more is
asked of the image than that the new section fits behind what is there: behind the addresses that
the others take from the file, behind the table of sections, and in the widths of its fields. Room
for another section header is not enough, as small images show.
-/

namespace CilRestore

namespace Grown

variable {file data : Bytes} {h : ImageHeaders} {sections : List Section} {last : Section}

/-- Data in a new section that fits are found at their RVA when the file is read anew, with one more
section, and RVAs lead where they led. The size of the image, if the file has that field and the
size fits, covers all sections unless an older one ends in memory behind the start of the new one.
-/
theorem appendSection_maps (hread : Section.readAll file = .ok (h, sections))
    (hlast : sections.getLast? = some last) (fits : FitsBehind file h sections last data.length)
    (hdata : data ≠ []) :
    ∃ g h' added, appendSection file h sections data = .ok g ∧
      Section.readAll g.data = .ok (h', sections ++ [added]) ∧
      (∀ i < data.length, ∃ offset,
        Section.offsetOf? (sections ++ [added]) ((g.rva + i : Nat) : Int) = some offset ∧
          g.data[offset]? = data[i]?) ∧
      (∀ (rva : Int) (offset : Nat), Section.offsetOf? sections rva = some offset →
        Section.offsetOf? (sections ++ [added]) rva = some offset) ∧
      (OptionalHeader.sizeOfImage.offset + OptionalHeader.sizeOfImage.width ≤ h.optionalSize →
        Bytes.alignNat (g.rva + data.length) h.sectionAlignment < 2 ^ 32 →
        (∀ s ∈ sections, s.virtualAddress + s.virtualSize ≤ g.rva) →
        ∀ s ∈ sections ++ [added],
          s.virtualAddress + s.virtualSize ≤ OptionalHeader.sizeOfImage.get h'.optional) := by
  obtain ⟨g, h', added, hgrow, -, appends⟩ := appendSection_appends hread hlast fits
  refine ⟨g, h', added, hgrow, appends.read, fun i hi => ⟨_, appends.leads i hi⟩, appends.maps,
    fun hfield hlt hends s hs => ?_⟩
  have hcovers := appends.covers hfield hlt
  rw [List.mem_append, List.mem_singleton] at hs
  rcases hs with hs | rfl
  · have := hends s hs
    omega
  · rw [Section.virtualSize, appends.stated_eq, appends.address_eq,
      if_neg (mt List.eq_nil_of_length_eq_zero hdata)]
    exact hcovers

/-- An image whose sections take addresses from the file in order, with room for another section
header and for the numbers that a new section leads to. -/
structure IsOrdered (file : Bytes) (h : ImageHeaders) (sections : List Section) (size : Nat) :
    Prop where
  /-- Its headers can be read. -/
  read : Section.readAll file = .ok (h, sections)
  /-- Sections ascend in memory, as far as they are in the file. -/
  ascending : sections.Pairwise fun s t => s.virtualAddress + s.rawSize ≤ t.virtualAddress
  /-- The optional header is no longer than its form. -/
  optional_le : h.optionalSize ≤ OptionalHeader.size h.is64
  /-- The alignments are positive. -/
  alignments : 0 < h.sectionAlignment ∧ 0 < h.fileAlignment
  /-- Sizes and places fit their fields. -/
  room : HasRoom file h sections size
  /-- So does the size of the image. -/
  image_lt : ∀ s ∈ sections.getLast?,
    Bytes.alignNat (newAddress h s + size) h.sectionAlignment < 2 ^ 32
  /-- There is room for another section header. -/
  canAdd : canAddSection file h sections = true

end Grown

/-! ### Small images -/

namespace SmallImage

/-- The facts that make a small image an ordered one. -/
theorem isOrdered {file : Bytes} {start size : Nat}
    (h : (Section.readAll file).toOption = some (headers file start, sections file start) ∧
      (headers file start).optionalSize ≤ OptionalHeader.size (headers file start).is64 ∧
      (0 < (headers file start).sectionAlignment ∧ 0 < (headers file start).fileAlignment) ∧
      (∀ s ∈ (sections file start).getLast?,
        Bytes.alignNat (Grown.newAddress (headers file start) s + size)
          (headers file start).sectionAlignment < 2 ^ 32 ∧
        Bytes.alignNat (Bytes.alignNat s.virtualSize 4 + size)
          (headers file start).fileAlignment < 2 ^ 32) ∧
      Bytes.alignNat file.length (headers file start).fileAlignment < 2 ^ 32 ∧
      Bytes.alignNat size (headers file start).fileAlignment < 2 ^ 32 ∧
      Grown.canAddSection file (headers file start) (sections file start) = true) :
    Grown.IsOrdered file (headers file start) (sections file start) size := by
  obtain ⟨hread, hopt, halign, hlast, hplace, hsize, hadd⟩ := h
  refine ⟨Sequence.toOption_eq_some.mp hread, List.pairwise_singleton _ _, hopt, halign,
    ⟨fun s hs => ?_, hplace, hsize, fun s hs => (hlast s hs).2⟩, fun s hs => (hlast s hs).1, hadd⟩
  refine Nat.lt_of_le_of_lt ?_ (hlast s hs).1
  exact Nat.le_trans (Nat.le_add_right _ _) (Bytes.le_alignNat _ halign.1)

/-- An image with data in a new section. -/
def withSection (file : Bytes) (start : Nat) (data : Bytes) : Grown :=
  (Grown.appendSection file (headers file start) (sections file start) data).toOption.getD ⟨[], 0⟩

/-- An image whose section has more bytes in the file than in memory, so that a new one begins among
its addresses. -/
def aboveEnd : Bytes := image 64 0 8 0x1000 8 (List.replicate 16 0)

/-- An image that ends behind its table of sections. -/
def tableLast : Bytes := (image 64 0 0x1000 0x1000 8 []).take 352

/-- An image whose optional header ends in front of the size of the image. The table of sections
stands where that would be. -/
def withoutImageSize : Bytes :=
  let file := image 64 0 0x1000 0x1000 8 [0x06, 0x2A, 0, 0, 0, 0, 0, 0]
  let file := Bytes.splice file 84 86 (Bytes.ofNumber 2 56)
  Bytes.splice file 152 168 (Bytes.ofNumber 4 8 ++ Bytes.ofNumber 4 0x1000 ++ Bytes.ofNumber 4 8 ++
    Bytes.ofNumber 4 (front 64))

end SmallImage

namespace Grown

open SmallImage

/-- A body of three bytes is found in a new section of the image with three methods. -/
theorem appendSection_maps_of_three :
    FitsBehind threeMethods (headers threeMethods 64) (sections threeMethods 64)
        ((sections threeMethods 64).getLast (by decide +kernel)) 3 ∧
      ∃ g h' added, appendSection threeMethods (headers threeMethods 64) (sections threeMethods 64)
          [0x0A, 0x00, 0x2A] = .ok g ∧ g.rva = 0x2000 ∧
        Section.readAll g.data = .ok (h', sections threeMethods 64 ++ [added]) ∧
        (∀ i < 3, ∃ offset, Section.offsetOf? (sections threeMethods 64 ++ [added])
          ((g.rva + i : Nat) : Int) = some offset ∧ g.data[offset]? = [0x0A, 0x00, 0x2A][i]?) ∧
        ∀ s ∈ sections threeMethods 64 ++ [added],
          s.virtualAddress + s.virtualSize ≤ OptionalHeader.sizeOfImage.get h'.optional := by
  have fits : FitsBehind threeMethods (headers threeMethods 64) (sections threeMethods 64)
      ((sections threeMethods 64).getLast (by decide +kernel))
      ([0x0A, 0x00, 0x2A] : Bytes).length := by
    decide +kernel
  obtain ⟨g, h', added, hgrow, hread, hmaps, -, himage⟩ :=
    appendSection_maps readAll_threeMethods (List.getLast?_eq_some_getLast _) fits (by decide)
  have hrva : g.rva = 0x2000 := by
    have hrun : (appendSection threeMethods (headers threeMethods 64) (sections threeMethods 64)
      [0x0A, 0x00, 0x2A]).toOption.map Grown.rva = some 0x2000 := by decide +kernel
    rw [hgrow] at hrun
    exact Option.some.inj hrun
  rw [hrva] at himage
  exact ⟨fits, g, h', added, hgrow, hrva, hread, hmaps,
    himage (by decide +kernel) (by decide +kernel) (by decide +kernel)⟩

/-- Room for another section header does not suffice. New data are not found where an old section
takes the new address from the file, nor where the new section header goes over them; the headers
are not found where the size of code is their place; and the size of the image stays where the
optional header has no such field. -/
theorem appendSection_misses :
    (IsOrdered aboveEnd (headers aboveEnd 64) (sections aboveEnd 64) 1 ∧
      ∃ read, Section.readAll (withSection aboveEnd 64 [0x2A]).data = .ok read ∧
        Section.offsetOf? read.2 (withSection aboveEnd 64 [0x2A]).rva = some 400 ∧
        (withSection aboveEnd 64 [0x2A]).data[400]? ≠ some 0x2A) ∧
    (IsOrdered tableLast (headers tableLast 64) (sections tableLast 64) 1 ∧
      ∃ read, Section.readAll (withSection tableLast 64 [0x2A]).data = .ok read ∧
        Section.offsetOf? read.2 (withSection tableLast 64 [0x2A]).rva = some 352 ∧
        (withSection tableLast 64 [0x2A]).data[352]? ≠ some 0x2A) ∧
    (IsOrdered overlapping (headers overlapping 32) (sections overlapping 32) 1 ∧
      ∀ read, Section.readAll (withSection overlapping 32 [0x2A]).data ≠ .ok read) ∧
    (IsOrdered withoutImageSize (headers withoutImageSize 64) (sections withoutImageSize 64) 1 ∧
      ∃ read, Section.readAll (withSection withoutImageSize 64 [0x2A]).data = .ok read ∧
        ∃ s ∈ read.2, OptionalHeader.sizeOfImage.get read.1.optional <
          s.virtualAddress + s.virtualSize) := by
  have hread (file : Bytes) (start count : Nat) (h : (Section.readAll file).toOption =
      some (headers file start, Section.listFrom file count (headers file start).tableStart)) :
      Section.readAll file = .ok (headers file start,
        Section.listFrom file count (headers file start).tableStart) :=
    Sequence.toOption_eq_some.mp h
  refine ⟨⟨isOrdered (by decide +kernel), _, hread _ 64 2 (by decide +kernel), by decide +kernel,
      by decide +kernel⟩,
    ⟨isOrdered (by decide +kernel), _, hread _ 64 2 (by decide +kernel), by decide +kernel,
      by decide +kernel⟩,
    ⟨isOrdered (by decide +kernel), fun read h => ?_⟩,
    ⟨isOrdered (by decide +kernel), _, hread _ 64 2 (by decide +kernel), by decide +kernel⟩⟩
  have hnone : (Section.readAll (withSection overlapping 32 [0x2A]).data).toOption = none := by
    decide +kernel
  rw [h] at hnone
  cases hnone

end Grown

end CilRestore
