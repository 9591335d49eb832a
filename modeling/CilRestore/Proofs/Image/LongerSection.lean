import CilRestore.Proofs.Image.NewSection

/-!
# Data at the end of the last section

The last section gets longer unless something follows it in the file. Then the data are found at
the RVA that growing answers, in the file read anew, whatever sizes the section had in memory and in
the file, and what any section had stays (`Grown.extendLast_cases`). No more is asked of the image
than that its last section is last in memory and in the file, and that no field that changes lies
over the place of the headers. Where one does, the headers are lost; and the size of the image is
not told where the optional header ends in front of it.
-/

namespace CilRestore

namespace Grown

variable {file data : Bytes} {h : ImageHeaders} {sections : List Section}

/-- Data are put at the end of the last section, or there is no section, or something follows the
last one in the file. Only then growing fails. -/
theorem extendLast_cases (hread : Section.readAll file = .ok (h, sections))
    (fits : FitsAtEnd h sections data.length)
    (clear : ∀ last ∈ sections.getLast?, ∀ place < 64, 60 ≤ place →
      ¬ h.InFields [] (last.countedIn ++ [OptionalHeader.sizeOfImage]) place ∧
        ¬ last.Extent place) :
    ((sections = [] ∨ ∃ last ∈ sections.getLast?, last.rawStart + last.rawSize < file.length) ∧
      ∃ text, extendLast file h sections data = .error (.reconstruction text)) ∨
    ∃ init last, sections = init ++ [last] ∧ file.length ≤ last.rawStart + last.rawSize ∧
      ∃ g h' longer base, extendLast file h sections data = .ok g ∧
        Extends file data h init last g h' longer base := by
  rcases List.eq_nil_or_concat sections with rfl | ⟨init, last, hsplit⟩
  · exact Or.inl ⟨Or.inl rfl, _, rfl⟩
  rw [List.concat_eq_append] at hsplit
  have hlast : sections.getLast? = some last := by rw [hsplit, List.getLast?_concat]
  by_cases hend : last.rawStart + last.rawSize < file.length
  · refine Or.inl ⟨Or.inr ⟨last, hlast, hend⟩, "data follows the last section, cannot grow it", ?_⟩
    rw [extendLast_eq file h data hlast, if_pos hend]
  · obtain ⟨g, h', longer, hgrow, -, hextends⟩ :=
      extendLast_extends hread fits hsplit (clear last hlast) (Nat.le_of_not_lt hend)
    exact Or.inr ⟨init, last, hsplit, Nat.le_of_not_lt hend, g, h', longer, _, hgrow, hextends⟩

end Grown

/-! ### Small images -/

namespace SmallImage

/-- An image whose last section got longer by data. -/
def withLonger (file : Bytes) (start : Nat) (data : Bytes) : Grown :=
  (Grown.extendLast file (headers file start) (sections file start) data).toOption.getD ⟨[], 0⟩

end SmallImage

namespace Grown

open SmallImage

/-- The section with three methods gets longer by a body of three bytes. -/
theorem extendLast_cases_of_three :
    FitsAtEnd (headers threeMethods 64) (sections threeMethods 64) 3 ∧
      ∃ init last, sections threeMethods 64 = init ++ [last] ∧
        ∃ g h' longer base, extendLast threeMethods (headers threeMethods 64)
            (sections threeMethods 64) [0x0A, 0x00, 0x2A] = .ok g ∧
          Extends threeMethods [0x0A, 0x00, 0x2A] (headers threeMethods 64) init last g h' longer
            base := by
  have fits : FitsAtEnd (headers threeMethods 64) (sections threeMethods 64)
      ([0x0A, 0x00, 0x2A] : Bytes).length := by
    decide +kernel
  rcases extendLast_cases readAll_threeMethods fits (by decide +kernel) with
    ⟨-, text, herror⟩ | ⟨init, last, hsplit, -, g, h', longer, base, hgrow, hextends⟩
  · have hrun : (extendLast threeMethods (headers threeMethods 64) (sections threeMethods 64)
        [0x0A, 0x00, 0x2A]).toOption.isSome = true := by decide +kernel
    rw [herror] at hrun
    cases hrun
  · exact ⟨fits, init, last, hsplit, g, h', longer, base, hgrow, hextends⟩

/-- The last section of an image may be last and nothing follow it, and yet the size of the image is
not told of the longer one, where the optional header has no such field; and the headers are lost
where the size of code is their place. -/
theorem extendLast_misses :
    (Section.readAll withoutImageSize =
        .ok (headers withoutImageSize 64, sections withoutImageSize 64) ∧
      FitsAtEnd (headers withoutImageSize 64) (sections withoutImageSize 64) 1 ∧
      extendLast withoutImageSize (headers withoutImageSize 64) (sections withoutImageSize 64)
        [0x2A] = .ok (withLonger withoutImageSize 64 [0x2A]) ∧
      ∃ read, Section.readAll (withLonger withoutImageSize 64 [0x2A]).data = .ok read ∧
        ∃ s ∈ read.2, OptionalHeader.sizeOfImage.get read.1.optional <
          s.virtualAddress + s.statedVirtualSize) ∧
    (Section.readAll overlapping = .ok (headers overlapping 32, sections overlapping 32) ∧
      FitsAtEnd (headers overlapping 32) (sections overlapping 32) 1 ∧
      extendLast overlapping (headers overlapping 32) (sections overlapping 32) [0x2A] =
        .ok (withLonger overlapping 32 [0x2A]) ∧
      ∀ read, Section.readAll (withLonger overlapping 32 [0x2A]).data ≠ .ok read) := by
  have hread (file : Bytes) (start : Nat) (h : (Section.readAll file).toOption =
      some (headers file start, sections file start)) :
      Section.readAll file = .ok (headers file start, sections file start) :=
    Sequence.toOption_eq_some.mp h
  have hgrow (file : Bytes) (start : Nat)
      (h : (extendLast file (headers file start) (sections file start) [0x2A]).toOption =
        some (withLonger file start [0x2A])) :
      extendLast file (headers file start) (sections file start) [0x2A] =
        .ok (withLonger file start [0x2A]) :=
    Sequence.toOption_eq_some.mp h
  refine ⟨⟨hread _ _ (by decide +kernel), by decide +kernel, hgrow _ _ (by decide +kernel), _,
      hread _ 64 (by decide +kernel), by decide +kernel⟩,
    hread _ _ (by decide +kernel), by decide +kernel, hgrow _ _ (by decide +kernel),
    fun read h => ?_⟩
  have hnone : (Section.readAll (withLonger overlapping 32 [0x2A]).data).toOption = none := by
    decide +kernel
  rw [h] at hnone
  cases hnone

end Grown

end CilRestore
