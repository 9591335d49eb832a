import CilRestore.Proofs.Image.Frame
import CilRestore.Proofs.Image.Patched

/-!
# Bodies in a patched image

After patching, the RVA of each body leads to it: the RVA of its stub where it went over the stub,
and the one that its row spells where it moved. That takes an image that is arranged and growable.
Where the last section starts beside a multiple of the alignment, a new section may begin among its
addresses, and a moved body is not found; where a size that growing changes lies over the place of
the headers, the headers are not found. Two small images show it.
-/

namespace CilRestore

namespace BodyPatch

variable {σ : Type} {t : σ} {sections : List Section} {cell : Int → Except Fault Int}
  {file new : Bytes} {h : ImageHeaders} {bodies : List BodyPatch}

/-- The RVA of a body in a patched file: what its row spells if the body moved, and that of its stub
otherwise. -/
def rvaAfter (sections : List Section) (cell : Int → Except Fault Int) (new : Bytes)
    (b : BodyPatch) : Int :=
  if moves sections b then (rvaIn cell new b : Int) else b.rva

/-- Bodies that are written into an arranged image, which can grow if some of them move, are found
where their RVAs lead. A body over its stub has zeros behind it and keeps its row; a moved one is at
a multiple of four, beside the other moved ones and beside all that belonged to the sections. -/
theorem apply_installs (arranged : ArrangedImage file h sections)
    (growable : (∃ b ∈ bodies, moves sections b = true) → Growable h sections)
    (places : BodyPlaces sections cell bodies) (filled : ∀ b ∈ bodies, b.compiled ≠ [])
    (room : Grown.HasRoom file h sections (gather (bodies.filter (moves sections))).1.length)
    (hr : (apply cell file bodies t).result = .ok new) :
    ∃ h' sections', Section.readAll new = .ok (h', sections') ∧
      (∀ b ∈ bodies, ∃ offset,
        Section.offsetOf? sections' (rvaAfter sections cell new b) = some offset ∧
        offset + b.compiled.length ≤ new.length ∧
        Bytes.slice new offset b.compiled.length = b.compiled ∧
        (moves sections b = false →
          Bytes.slice new (offset + b.compiled.length) (b.stubSize - b.compiled.length) =
            Bytes.zeros (b.stubSize - b.compiled.length) ∧
          ∀ place : Nat, cell ((b.rid : Int) - 1) = .ok (place : Int) →
            Bytes.SameOn file new place 4) ∧
        (moves sections b = true → 4 ∣ rvaIn cell new b ∧
          ∀ start count, 0 < count → Section.Owns sections start count →
            Bytes.Apart offset b.compiled.length start count)) ∧
      bodies.Pairwise fun a b => moves sections a = true → moves sections b = true →
        Bytes.Apart (rvaIn cell new a) a.compiled.length (rvaIn cell new b) b.compiled.length ∧
        ∀ offset offset', Section.offsetOf? sections' (rvaIn cell new a : Int) = some offset →
          Section.offsetOf? sections' (rvaIn cell new b : Int) = some offset' →
          Bytes.Apart offset a.compiled.length offset' b.compiled.length := by
  obtain ⟨h', sections', installs⟩ := installs_of_apply arranged growable places filled room hr
  refine ⟨h', sections', installs.read, fun b hb => ?_, ?_⟩
  · cases hm : moves sections b with
    | true =>
      obtain ⟨offset, hmoved⟩ := installs.moved b hb hm
      refine ⟨offset, ?_, hmoved.inside, hmoved.slice_eq, fun hf => absurd hf (by simp),
        fun _ => ⟨hmoved.addressed, hmoved.apart⟩⟩
      rw [rvaAfter, if_pos hm]
      exact hmoved.leads
    | false =>
      obtain ⟨offset, hover⟩ := installs.stays b hb hm
      obtain ⟨-, -, -, hfit, -⟩ := place?_eq_some hover.place
      have hinside := hover.inside
      obtain ⟨hbody, hrest⟩ := slices_of_covering hfit hover.covers
      refine ⟨offset, ?_, by omega, hbody, fun _ => ⟨hrest, hover.cell_same⟩,
        fun ht => absurd ht (by simp)⟩
      rw [rvaAfter, if_neg (by simp [hm])]
      exact hover.leads
  · exact (installs.rvas_apart.and installs.offsets_apart).imp fun hab ha hb =>
      ⟨hab.1 ha hb, hab.2 ha hb⟩

/-- All that writing bodies asks of an image, except that growing does no harm: the last section
only takes no more bytes in the file than in memory, rounded up. -/
structure IsRegular (file : Bytes) (h : ImageHeaders) (sections : List Section)
    (cell : Int → Except Fault Int) (bodies : List BodyPatch) : Prop where
  /-- The image is arranged. -/
  arranged : ArrangedImage file h sections
  /-- The last section has room for its data, counted from its start. -/
  last : ∀ s ∈ sections.getLast?, s.rawSize ≤ Bytes.alignNat s.virtualSize h.sectionAlignment
  /-- The cells and the stubs are in their places. -/
  places : BodyPlaces sections cell bodies
  /-- No body is empty. -/
  filled : ∀ b ∈ bodies, b.compiled ≠ []
  /-- Sizes and addresses fit their fields. -/
  room : Grown.HasRoom file h sections
    (gather (bodies.filter (moves sections))).1.length

end BodyPatch

/-! ### Small images -/

namespace SmallImage

/-- The facts that make a small image an arranged one. -/
theorem arranged {file : Bytes} {start : Nat}
    (h : (Section.readAll file).toOption = some (headers file start, sections file start) ∧
      (headers file start).optionalSize ≤ OptionalHeader.size (headers file start).is64 ∧
      (∀ s ∈ sections file start, s.rawSize ≠ 0 →
        (headers file start).tableStart + (sections file start).length * Section.headerSize ≤
            s.rawStart ∧ s.rawStart + s.rawSize ≤ file.length) ∧
      (∀ s ∈ sections file start, 4 ∣ s.virtualAddress) ∧
      (0 < (headers file start).sectionAlignment ∧ 4 ∣ (headers file start).sectionAlignment) ∧
      0 < (headers file start).fileAlignment ∧ 4 ∣ (headers file start).fileAlignment) :
    ArrangedImage file (headers file start) (sections file start) := by
  obtain ⟨hread, hopt, hinside, haddress, hsection, hfile⟩ := h
  exact ⟨Sequence.toOption_eq_some.mp hread, hopt, List.pairwise_singleton _ _,
    List.pairwise_singleton _ _, hinside, haddress, hsection, hfile,
    by rw [Section.length_listFrom]; decide⟩

/-- The file with the three bodies. -/
def threePatched : Bytes := threeWritten.result.toOption.getD []

/-- An image whose section starts halfway between two multiples of the alignment of sections. -/
def betweenMultiples : Bytes :=
  image 64 0 16 0x1008 8 [0x0C, 0x10, 0, 0, 0x06, 0x2A, 0, 0, 0, 0, 0, 0, 0, 0, 0, 0]

/-- A body that is too long for its stub there. -/
def movedBetween : BodyPatch := ⟨1, 0x100C, 2, [0x0A, 0x00, 0x2A]⟩

/-- The file with that body. -/
def betweenPatched : Bytes :=
  ((BodyPatch.apply (cellFrom 64) betweenMultiples [movedBetween] ()).result.toOption.getD [])

/-- An image whose new headers begin inside the old one, so that the size of code is the place of
the headers. -/
def overlapping : Bytes := image 32 32 0x1000 0x1000 8 [0x04, 0x10, 0, 0, 0x06, 0x2A, 0, 0]

/-- A body that is too long for its stub there. -/
def movedOverlapping : BodyPatch := ⟨1, 0x1004, 2, [0x0A, 0x00, 0x2A]⟩

/-- The file with that body. -/
def overlappingPatched : Bytes :=
  ((BodyPatch.apply (cellFrom 32) overlapping [movedOverlapping] ()).result.toOption.getD [])

end SmallImage

namespace BodyPatch

open SmallImage

/-- The three bodies are found in the small image, the fat one among them. -/
theorem apply_installs_of_three :
    Growable (headers threeMethods 64) (sections threeMethods 64) ∧
      ∃ h' sections', Section.readAll threePatched = .ok (h', sections') ∧
        ∀ b ∈ threeBodies, ∃ offset, Section.offsetOf? sections'
            (rvaAfter (sections threeMethods 64) (cellFrom 64) threePatched b) = some offset ∧
          Bytes.slice threePatched offset b.compiled.length = b.compiled := by
  have growable : Growable (headers threeMethods 64) (sections threeMethods 64) := by
    decide +kernel
  have places : BodyPlaces (sections threeMethods 64) (cellFrom 64) threeBodies :=
    .of_offsets (fun b => 388 + 4 * b.rid) (fun b => 400 + 4 * b.rid) (by decide +kernel)
  obtain ⟨h', sections', hread, hbodies, -⟩ := apply_installs (t := ())
    (arranged (by decide +kernel)) (fun _ => growable) places (by decide +kernel)
    ((Grown.hasRoom_iff ..).mpr (by decide +kernel)) threeWritten_eq_ok
  refine ⟨growable, h', sections', hread, fun b hb => ?_⟩
  obtain ⟨offset, hleads, -, hslice, -⟩ := hbodies b hb
  exact ⟨offset, hleads, hslice⟩

/-- Growing may do harm. A body is not found where the new section begins among the addresses of the
last one, and nothing is found where the size of code is the place of the headers. -/
theorem apply_loses_without_growable :
    (IsRegular betweenMultiples (headers betweenMultiples 64) (sections betweenMultiples 64)
        (cellFrom 64) [movedBetween] ∧
      (apply (cellFrom 64) betweenMultiples [movedBetween] ()).result = .ok betweenPatched ∧
      ∃ h' sections', Section.readAll betweenPatched = .ok (h', sections') ∧
        Section.offsetOf? sections' (rvaAfter (sections betweenMultiples 64) (cellFrom 64)
          betweenPatched movedBetween) = some 400 ∧
        Bytes.slice betweenPatched 400 movedBetween.compiled.length ≠ movedBetween.compiled) ∧
    (IsRegular overlapping (headers overlapping 32) (sections overlapping 32) (cellFrom 32)
        [movedOverlapping] ∧
      (apply (cellFrom 32) overlapping [movedOverlapping] ()).result = .ok overlappingPatched ∧
      ∀ read, Section.readAll overlappingPatched ≠ .ok read) := by
  refine ⟨⟨⟨arranged (by decide +kernel), by decide +kernel, ?_, by decide +kernel,
    (Grown.hasRoom_iff ..).mpr (by decide +kernel)⟩, ?_, ?_⟩, ⟨arranged (by decide +kernel),
    by decide +kernel, ?_, by decide +kernel, (Grown.hasRoom_iff ..).mpr (by decide +kernel)⟩, ?_,
    fun read hread => ?_⟩
  · exact .of_offsets (fun _ => 392) (fun _ => 396) (by decide +kernel)
  · exact (Action.ends_getD (by decide +kernel) []).1
  · have hread : (Section.readAll betweenPatched).toOption =
        some (headers betweenPatched 64, Section.listFrom betweenPatched 2 312) := by
      decide +kernel
    exact ⟨_, _, Sequence.toOption_eq_some.mp hread, by decide +kernel, by decide +kernel⟩
  · exact .of_offsets (fun _ => 360) (fun _ => 364) (by decide +kernel)
  · exact (Action.ends_getD (by decide +kernel) []).1
  · have hnone : (Section.readAll overlappingPatched).toOption = none := by decide +kernel
    rw [hread] at hnone
    cases hnone

end BodyPatch

end CilRestore
