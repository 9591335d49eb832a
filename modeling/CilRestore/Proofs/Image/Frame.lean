import CilRestore.Proofs.Image.Patching

/-!
# What patching leaves alone

Writing bodies into an image makes no file shorter, and what it changes is told byte by byte: the
stubs that bodies go over, and where some body moves, the cells of the rows that are pointed and
what growing changes. That holds wherever the stubs and the cells lie behind the table of sections,
also where they overlap.
-/

namespace CilRestore

namespace BodyPatch

variable {σ : Type} {t : σ} {sections : List Section} {cell : Int → Except Fault Int}
  {file new : Bytes} {h : ImageHeaders} {bodies : List BodyPatch}

/-- A place in a file holds a byte of a stub that a body goes over. -/
def InStub (sections : List Section) (bodies : List BodyPatch) (place : Nat) : Prop :=
  ∃ b ∈ bodies, ∃ offset, place? sections b = .ok (some offset) ∧
    offset ≤ place ∧ place < offset + b.stubSize

/-- A place holds a byte of the RVA in the row of a body that moves. -/
def InCell (sections : List Section) (cell : Int → Except Fault Int) (bodies : List BodyPatch)
    (place : Nat) : Prop :=
  ∃ b ∈ bodies, moves sections b = true ∧ ∃ offset, cell ((b.rid : Int) - 1) = .ok offset ∧
    offset ≤ place ∧ (place : Int) < offset + 4

/-- A place holds a byte of the room for another section header. -/
def InSlot (h : ImageHeaders) (sections : List Section) (place : Nat) : Prop :=
  h.tableStart + sections.length * Section.headerSize ≤ place ∧
    place < h.tableStart + sections.length * Section.headerSize + Section.headerSize

/-- A place holds a byte that growing changes in the way that printed lines tell. -/
inductive InGrowth (h : ImageHeaders) (sections : List Section) (lines : List String)
    (place : Nat) : Prop
  /-- Counts and sizes are told anew in any case. -/
  | counts : h.Counts place → InGrowth h sections lines place
  /-- A new section gets a header, and nothing is printed. -/
  | slot : lines = [] → InSlot h sections place → InGrowth h sections lines place
  /-- The header of a last section that gets longer says so. -/
  | extent {last : Section} : lines = [growingLine] → sections.getLast? = some last →
    last.Extent place → InGrowth h sections lines place
  /-- What stands behind the data of that section is written over. -/
  | behind {last : Section} : lines = [growingLine] → sections.getLast? = some last →
    last.rawStart + last.virtualSize ≤ place → InGrowth h sections lines place

/-- What growing changes lies where the place of the headers and the file header say. -/
theorem InGrowth.congr {h' : ImageHeaders} {lines : List String} {place : Nat}
    (hin : InGrowth h' sections lines place) (hs : h'.start = h.start) (hf : h'.file = h.file) :
    InGrowth h sections lines place := by
  cases hin with
  | counts hc => exact .counts ((ImageHeaders.counts_congr hs hf).mp hc)
  | slot hl hp => exact .slot hl (by rwa [InSlot, ImageHeaders.tableStart_congr hs hf] at hp)
  | extent hl hlast he => exact .extent hl hlast he
  | behind hl hlast hle => exact .behind hl hlast hle

/-- A file that grows gets no shorter, and keeps what growing does not change. -/
theorem Grows.frame (hread : Section.readAll file = .ok (h, sections))
    (hopt : h.optionalSize ≤ OptionalHeader.size h.is64) {data : Bytes} {g : Grown}
    {lines : List String} (hg : Grows file h sections data g lines) :
    file.length ≤ g.data.length ∧
      ∀ i < file.length, ¬ InGrowth h sections lines i → g.data[i]? = file[i]? := by
  cases hg with
  | appended _ hgrow =>
    obtain ⟨hlen, hkeep⟩ := Grown.appendSection_frame hread hopt hgrow
    refine ⟨hlen, fun i hi hnot => hkeep i hi (fun hc => hnot (.counts hc)) ?_⟩
    have hslot : ¬ InSlot h sections i := fun hs => hnot (.slot rfl hs)
    rw [InSlot] at hslot
    omega
  | extended _ hgrow =>
    obtain ⟨hlen, hkeep⟩ := Grown.extendLast_frame hread hopt hgrow
    refine ⟨hlen, fun i hi hnot => hkeep i hi (fun hc => hnot (.counts hc)) fun last hl => ?_⟩
    exact ⟨fun he => hnot (.extent rfl hl he), Nat.lt_of_not_le fun hle => hnot (.behind rfl hl hle)⟩

/-- A file that grows without a word had zeros where the header of the new section goes. -/
theorem Grows.eq_zero_of_inSlot {data : Bytes} {g : Grown} (hg : Grows file h sections data g [])
    {i : Nat} (hi : i < file.length) (hs : InSlot h sections i) : file[i]? = some 0 := by
  cases hg with
  | appended hadd _ =>
    simp only [Grown.canAddSection, Bool.and_eq_true, List.all_eq_true, beq_iff_eq] at hadd
    rw [List.getElem?_eq_getElem hi, Option.some.injEq]
    refine hadd.2 _ (List.mem_of_getElem? (i := i - (h.tableStart + sections.length *
      Section.headerSize)) ?_)
    obtain ⟨hl, hu⟩ := hs
    rw [Bytes.getElem?_slice, if_pos (by omega), Nat.add_sub_cancel' hl, List.getElem?_eq_getElem hi]

/-- Stubs behind the table of sections are gone over without a change to what is read of the
headers. -/
theorem readAll_overwriteAll (hread : Section.readAll file = .ok (h, sections))
    (stubs : ∀ b ∈ bodies, ∀ offset, place? sections b = .ok (some offset) →
      h.tableStart + sections.length * Section.headerSize ≤ offset ∧
        offset + b.stubSize ≤ file.length)
    {covered : Bytes} {moved : List BodyPatch}
    (hover : overwriteAll sections bodies file [] = .ok (covered, moved)) :
    ∃ h', Section.readAll covered = .ok (h', sections) ∧ h'.start = h.start ∧
      h'.is64 = h.is64 ∧ h'.file = h.file := by
  obtain ⟨-, hlen, hsame⟩ := overwriteAll_frame hover fun b hb offset hp =>
    (stubs b hb offset hp).2
  by_cases hne : sections = []
  · -- no RVA leads anywhere, so no stub is gone over
    have hall : covered = file := by
      apply List.ext_getElem?
      intro i
      refine (hsame i 1 fun b _ offset hp => ?_).byte_eq
      obtain ⟨hmap, -⟩ := place?_eq_some hp
      rw [hne] at hmap
      cases hmap
    rw [hall]
    exact ⟨h, hread, rfl, rfl, rfl⟩
  · obtain ⟨h', hread', hat, hform, hfile⟩ := Section.readAll_of_sameOn hread hne
      (Nat.le_of_eq hlen.symm)
      (hsame _ _ fun b hb offset hp => Or.inr (by have := (stubs b hb offset hp).1; omega))
    exact ⟨h', hread', by rw [hat, ImageHeaders.atStart], hform, hfile⟩

/-- What is in no stub is kept by the bodies that go over theirs. -/
theorem getElem?_overwriteAll {covered : Bytes} {before moved : List BodyPatch}
    (hover : overwriteAll sections bodies file before = .ok (covered, moved))
    (stubs : ∀ b ∈ bodies, ∀ offset, place? sections b = .ok (some offset) →
      offset + b.stubSize ≤ file.length) {i : Nat} (hi : ¬ InStub sections bodies i) :
    covered[i]? = file[i]? := by
  refine ((overwriteAll_frame hover stubs).2.2 i 1 fun b hb offset hp => ?_).byte_eq
  by_contra hnot
  refine hi ⟨b, hb, offset, hp, ?_⟩
  rw [Bytes.Apart] at hnot
  omega

/-- Only a body with a header goes over a stub. -/
theorem ne_nil_of_place? {b : BodyPatch} {offset : Nat}
    (h : place? sections b = .ok (some offset)) : b.compiled ≠ [] := by
  intro hnil
  obtain ⟨hmap, hrva, hsize, hfit, -⟩ := place?_eq_some h
  have hfits : fits b.stubSize b.rva b.compiled = .error .badIndex := by
    unfold fits
    rw [hnil, if_neg (by simp [hrva, hsize]), if_neg (by simp)]
  rw [place?, hfits] at h
  cases h

/-- Where no body starts with a zero, what is all zeros afterwards holds no byte of a stub that a
body has gone over, as long as no stub begins in front of it: the last body that went there would
still begin in it. -/
theorem not_inStub_of_zeros {covered : Bytes} {before moved : List BodyPatch} {first stop : Nat}
    (hover : overwriteAll sections bodies file before = .ok (covered, moved))
    (stubs : ∀ b ∈ bodies, ∀ offset, place? sections b = .ok (some offset) →
      first ≤ offset ∧ offset + b.stubSize ≤ file.length)
    (heads : ∀ b ∈ bodies, b.compiled.head? ≠ some 0)
    (hzeros : ∀ i < file.length, first ≤ i → i < stop → covered[i]? = some 0) :
    ∀ i < stop, ¬ InStub sections bodies i := by
  induction bodies generalizing file before with
  | nil =>
    rintro i - ⟨b, hb, -⟩
    cases hb
  | cons b bodies ih =>
    have hothers : ∀ x ∈ bodies, ∀ offset, place? sections x = .ok (some offset) →
        first ≤ offset ∧ offset + x.stubSize ≤ file.length := fun x hx => stubs x (by simp [hx])
    have hheads : ∀ x ∈ bodies, x.compiled.head? ≠ some 0 := fun x hx => heads x (by simp [hx])
    unfold overwriteAll at hover
    split at hover
    · cases hover
    · rename_i offset hplace
      obtain ⟨-, -, -, hfit, -⟩ := place?_eq_some hplace
      obtain ⟨hfirst, hinside⟩ := stubs b (by simp) offset hplace
      have hlen := length_overwrite hfit hinside
      have hrest := ih hover (by rw [hlen]; exact hothers) hheads (by rw [hlen]; exact hzeros)
      rintro i hi ⟨x, hx, place, hplace', hle, hlt⟩
      rcases List.mem_cons.mp hx with rfl | hx
      · -- The body begins in the range, and no later one has gone over its first byte.
        rw [hplace, Except.ok.injEq, Option.some.injEq] at hplace'
        subst hplace'
        have hkept := getElem?_overwriteAll hover
          (fun y hy place hp => by rw [hlen]; exact (hothers y hy place hp).2)
          (hrest offset (by omega))
        rw [hzeros offset (by omega) hfirst (by omega), getElem?_overwrite hfit hinside,
          if_pos ⟨Nat.le_refl _, by omega⟩, Nat.sub_self, covering] at hkept
        obtain ⟨head, tail, hcompiled⟩ := List.exists_cons_of_ne_nil (ne_nil_of_place? hplace)
        have hhead := heads x (by simp)
        rw [hcompiled, List.head?_cons] at hhead
        rw [hcompiled, List.cons_append, List.getElem?_cons_zero] at hkept
        exact hhead hkept.symm
      · exact hrest i hi ⟨x, hx, place, hplace', hle, hlt⟩
    · rename_i hplace
      have hrest := ih hover hothers hheads hzeros
      rintro i hi ⟨x, hx, place, hplace', hle, hlt⟩
      rcases List.mem_cons.mp hx with rfl | hx
      · rw [hplace] at hplace'
        cases hplace'
      · exact hrest i hi ⟨x, hx, place, hplace', hle, hlt⟩

/-- What is in no cell of a moved body and is not changed by growing is kept by the bodies that
move. -/
theorem relocate_frame (hread : Section.readAll file = .ok (h, sections))
    (hopt : h.optionalSize ≤ OptionalHeader.size h.is64)
    (cells : ∀ b ∈ bodies, ∀ offset, cell ((b.rid : Int) - 1) = .ok offset →
      0 ≤ offset ∧ offset + 4 ≤ file.length)
    (hr : (relocate cell file bodies t).result = .ok new) :
    file.length ≤ new.length ∧
      (∀ i < file.length,
        (∀ b ∈ bodies, ∀ offset, cell ((b.rid : Int) - 1) = .ok offset →
          ¬ (offset ≤ i ∧ (i : Int) < offset + 4)) →
        ¬ InGrowth h sections (relocate cell file bodies t).lines i → new[i]? = file[i]?) ∧
      ((relocate cell file bodies t).lines = [] →
        ∀ i < file.length, InSlot h sections i → file[i]? = some 0) := by
  obtain ⟨h', sections', g, hread', hgrows, hrepoint⟩ := relocate_cases hr
  rw [hread, Except.ok.injEq, Prod.mk.injEq] at hread'
  obtain ⟨rfl, rfl⟩ := hread'
  obtain ⟨hgrown, hkeep⟩ := hgrows.frame hread hopt
  obtain ⟨hlength, hbeside⟩ := repoint_frame hrepoint fun entry hentry offset hc => by
    have := cells entry.1 (mem_of_mem_gather hentry) offset hc
    omega
  refine ⟨by omega, fun i hi hcell hgrowth => ?_, fun hnothing i hi hslot => ?_⟩
  · rw [(hbeside i 1 fun entry hentry offset hc => ?_).byte_eq]
    · exact hkeep i hi hgrowth
    · have := hcell entry.1 (mem_of_mem_gather hentry) offset hc
      rw [Bytes.Apart]
      omega
  · rw [hnothing] at hgrows
    exact hgrows.eq_zero_of_inSlot hi hslot

/-- Bodies that move do so in a file in which others have gone over their stubs. What is in no such
stub, in no cell and in nothing that growing changes is as it was in front of both, and a new
section gets its header where the stubs have left zeros. -/
theorem relocate_covered_frame {covered : Bytes} {moved : List BodyPatch}
    (hread : Section.readAll file = .ok (h, sections))
    (hopt : h.optionalSize ≤ OptionalHeader.size h.is64)
    (stubs : ∀ b ∈ bodies, ∀ offset, place? sections b = .ok (some offset) →
      h.tableStart + sections.length * Section.headerSize ≤ offset ∧
        offset + b.stubSize ≤ file.length)
    (hover : overwriteAll sections bodies file [] = .ok (covered, moved))
    (cells : ∀ b ∈ moved, ∀ offset, cell ((b.rid : Int) - 1) = .ok offset →
      0 ≤ offset ∧ offset + 4 ≤ file.length)
    (hr : (relocate cell covered moved t).result = .ok new) :
    file.length ≤ new.length ∧
      (∀ i < file.length, ¬ InStub sections bodies i →
        (∀ b ∈ moved, ∀ offset, cell ((b.rid : Int) - 1) = .ok offset →
          ¬ (offset ≤ i ∧ (i : Int) < offset + 4)) →
        ¬ InGrowth h sections (relocate cell covered moved t).lines i → new[i]? = file[i]?) ∧
      ((relocate cell covered moved t).lines = [] →
        ∀ i < file.length, InSlot h sections i → covered[i]? = some 0) := by
  have hinside := fun b hb offset hp => (stubs b hb offset hp).2
  obtain ⟨-, hlen, -⟩ := overwriteAll_frame hover hinside
  obtain ⟨h', hread', hstart, hform, hfile⟩ := readAll_overwriteAll hread stubs hover
  have hopt' : h'.optionalSize ≤ OptionalHeader.size h'.is64 := by
    rw [ImageHeaders.optionalSize, hfile, hform]
    exact hopt
  have htable := ImageHeaders.tableStart_congr hstart hfile
  obtain ⟨hgrown, hkeep, hslots⟩ :=
    relocate_frame hread' hopt' (fun b hb offset hc => by rw [hlen]; exact cells b hb offset hc) hr
  refine ⟨by omega, fun i hi hstub hcell hgrowth => ?_, fun hnothing i hi hslot => ?_⟩
  · calc new[i]?
      _ = covered[i]? := hkeep i (by omega) hcell fun hin => hgrowth (hin.congr hstart hfile)
      _ = file[i]? := getElem?_overwriteAll hover hinside hstub
  · exact hslots hnothing i (by omega) (by rwa [InSlot, htable])

/-- Writing bodies makes no file shorter. It changes the stubs that bodies go over and, where some
body moves, the cells of rows and what growing changes. A header for a new section goes over zeros
and over stubs that bodies have gone over, and over zeros only when no body starts with a zero, as
no serialized one does (`Serialized.head?_ne_zero`). Where no body moves, the file keeps its
length. -/
theorem apply_frame (hread : Section.readAll file = .ok (h, sections))
    (hopt : h.optionalSize ≤ OptionalHeader.size h.is64)
    (stubs : ∀ b ∈ bodies, ∀ offset, place? sections b = .ok (some offset) →
      h.tableStart + sections.length * Section.headerSize ≤ offset ∧
        offset + b.stubSize ≤ file.length)
    (cells : ∀ b ∈ bodies, moves sections b = true → ∀ offset,
      cell ((b.rid : Int) - 1) = .ok offset →
        (h.tableStart + sections.length * Section.headerSize : Nat) ≤ offset ∧
          offset + 4 ≤ file.length)
    (hr : (apply cell file bodies t).result = .ok new) :
    file.length ≤ new.length ∧
      (∀ i < file.length, new[i]? ≠ file[i]? → InStub sections bodies i ∨
        (∃ b ∈ bodies, moves sections b = true) ∧ (InCell sections cell bodies i ∨
          InGrowth h sections (apply cell file bodies t).lines i)) ∧
      ((∃ b ∈ bodies, moves sections b = true) → (apply cell file bodies t).lines = [] →
        ∀ i < file.length, InSlot h sections i →
          (file[i]? = some 0 ∨ InStub sections bodies i) ∧
            ((∀ b ∈ bodies, b.compiled.head? ≠ some 0) → file[i]? = some 0)) ∧
      ((∀ b ∈ bodies, moves sections b = false) → new.length = file.length) := by
  obtain ⟨covered, moved, hover, hmade⟩ := apply_cases hread hr
  have hinside := fun b hb offset hp => (stubs b hb offset hp).2
  obtain ⟨hmoved, hlen, -⟩ := overwriteAll_frame hover hinside
  have hcovered : ∀ i, ¬ InStub sections bodies i → covered[i]? = file[i]? := fun i =>
    getElem?_overwriteAll hover hinside
  have hmem : ∀ b, b ∈ moved ↔ b ∈ bodies ∧ moves sections b = true := fun b => by
    rw [hmoved, List.reverse_nil, List.nil_append, List.mem_filter]
  rcases hmade with ⟨rfl, rfl, -⟩ | ⟨hsome, hmove, hlines⟩
  · have hstay : ¬ ∃ b ∈ bodies, moves sections b = true := by
      rintro ⟨b, hb⟩
      cases (hmem b).mpr hb
    refine ⟨Nat.le_of_eq hlen.symm, fun i _ hne => Or.inl ?_, fun hm => absurd hm hstay,
      fun _ => hlen⟩
    by_contra hi
    exact hne (hcovered i hi)
  · have hgo : ∃ b ∈ bodies, moves sections b = true := by
      obtain ⟨b, hb⟩ := List.exists_mem_of_ne_nil _ hsome
      exact ⟨b, (hmem b).mp hb⟩
    obtain ⟨hgrown, hkeep, hslots⟩ := relocate_covered_frame hread hopt stubs hover
      (fun b hb offset hc => by
        obtain ⟨hb, hm⟩ := (hmem b).mp hb
        have := cells b hb hm offset hc
        omega) hmove
    rw [hlines]
    refine ⟨hgrown, fun i hi hne => ?_, fun _ hnothing i hi hslot => ?_, fun hstay => ?_⟩
    · by_contra hnot
      simp only [not_or, not_and] at hnot
      obtain ⟨hstub, hrest⟩ := hnot
      obtain ⟨hcell, hgrowth⟩ := hrest hgo
      refine hne (hkeep i hi hstub (fun b hb offset hc hin => ?_) hgrowth)
      obtain ⟨hb, hm⟩ := (hmem b).mp hb
      exact hcell ⟨b, hb, hm, offset, hc, hin⟩
    · have hzeros := hslots hnothing
      have hbeside : ¬ InStub sections bodies i → file[i]? = some 0 := fun hstub => by
        rw [← hcovered i hstub]
        exact hzeros i hi hslot
      refine ⟨(em (InStub sections bodies i)).elim Or.inr fun hstub => Or.inl (hbeside hstub),
        fun heads => hbeside ?_⟩
      exact not_inStub_of_zeros hover stubs heads (fun j hj hle hlt => hzeros j hj ⟨hle, hlt⟩) i
        hslot.2
    · obtain ⟨b, hb, hm⟩ := hgo
      rw [hstay b hb] at hm
      cases hm

end BodyPatch

/-! ### A small image -/

namespace SmallImage

/-- Where the data of the section start when the new headers start at a place: behind the table of
sections with room for one more. -/
def front (start : Nat) : Nat :=
  start + 4 + FileHeader.size + OptionalHeader.size false + 2 * Section.headerSize

/-- An image of 32 bits with one section. -/
def image (start sizeOfCode sectionAlignment address size : Nat) (content : Bytes) : Bytes :=
  let optional := start + 4 + FileHeader.size
  let table := optional + OptionalHeader.size false
  let numbers : List (Nat × Nat × Nat) :=
    [(0, 2, ImageHeaders.oldSignature), (60, 4, start), (start, 4, ImageHeaders.signature),
      (start + 6, 2, 1), (start + 20, 2, OptionalHeader.size false), (optional, 2, 0x10B),
      (optional + 4, 4, sizeOfCode), (optional + 32, 4, sectionAlignment), (optional + 36, 4, 4),
      (optional + 60, 4, front start), (table + 8, 4, size), (table + 12, 4, address),
      (table + 16, 4, content.length), (table + 20, 4, front start),
      (table + 36, 4, Section.containsCode)]
  numbers.foldl (fun data (place, width, value) =>
    Bytes.splice data place (place + width) (Bytes.ofNumber width value))
    (Bytes.zeros (front start)) ++ content

/-- The headers of an image at a place. -/
abbrev headers (file : Bytes) (start : Nat) : ImageHeaders := ImageHeaders.atStart file start

/-- The section of an image with headers at a place. -/
abbrev sections (file : Bytes) (start : Nat) : List Section :=
  Section.listFrom file 1 (headers file start).tableStart

/-- The cells of rows at the start of the data of the section. -/
def cellFrom (start : Nat) (position : Int) : Except Fault Int := .ok (front start + 4 * position)

/-- Three methods, each of which returns. -/
def threeMethods : Bytes :=
  image 64 0 0x1000 0x1000 24 [0x0C, 0x10, 0, 0, 0x10, 0x10, 0, 0, 0x14, 0x10, 0, 0, 0x06, 0x2A,
    0, 0, 0x06, 0x2A, 0, 0, 0x06, 0x2A, 0, 0]

/-- A body with a fat header, since its local variables start as zero. -/
def fatBody : Bytes :=
  [0x13, 0x30, 0x00, 0x00, 0x02, 0x00, 0x00, 0x00, 0x00, 0x00, 0x00, 0x00, 0x00, 0x2A]

/-- One body that goes over its stub, and two that are too long for it: a tiny and a fat one. -/
def threeBodies : List BodyPatch :=
  [⟨1, 0x100C, 2, [0x02]⟩, ⟨2, 0x1010, 2, [0x0A, 0x00, 0x2A]⟩, ⟨3, 0x1014, 2, fatBody⟩]

/-- Writing the three bodies. -/
def threeWritten : Outcome Unit Bytes :=
  BodyPatch.apply (cellFrom 64) threeMethods threeBodies ()

theorem readAll_threeMethods : Section.readAll threeMethods =
    .ok (headers threeMethods 64, sections threeMethods 64) :=
  Sequence.toOption_eq_some.mp (by decide +kernel)

theorem threeWritten_eq_ok : threeWritten.result = .ok (threeWritten.result.toOption.getD []) :=
  (Action.ends_getD (x := fun _ => threeWritten) (s := ()) (by decide +kernel) []).1

/-- The data of the only section are all of the file, and a method returns in the room for another
section header. -/
def slotMethod : Bytes :=
  let table := 64 + 4 + FileHeader.size + OptionalHeader.size false
  let file := image 64 0 0x1000 0x1000 400 (Bytes.zeros 8)
  let file := Bytes.splice file (table + 16) (table + 24) (Bytes.ofNumber 4 400 ++ Bytes.zeros 4)
  Bytes.splice file 360 362 [0x06, 0x2A]

end SmallImage

namespace BodyPatch

open SmallImage

/-- Writing three bodies into a small image: the bytes that change are in their places, and the
header of the new section goes over zeros. -/
theorem apply_frame_of_three :
    threeMethods.length ≤ (threeWritten.result.toOption.getD []).length ∧
      (∀ i < threeMethods.length, (threeWritten.result.toOption.getD [])[i]? ≠ threeMethods[i]? →
        InStub (sections threeMethods 64) threeBodies i ∨
          (∃ b ∈ threeBodies, moves (sections threeMethods 64) b = true) ∧
            (InCell (sections threeMethods 64) (cellFrom 64) threeBodies i ∨
              InGrowth (headers threeMethods 64) (sections threeMethods 64) threeWritten.lines i)) ∧
      ∀ i < threeMethods.length, InSlot (headers threeMethods 64) (sections threeMethods 64) i →
        threeMethods[i]? = some 0 := by
  have stubs : ∀ b ∈ threeBodies, ∀ offset ∈ (place? (sections threeMethods 64) b).toOption.join,
      352 ≤ offset ∧ offset + b.stubSize ≤ threeMethods.length := by decide +kernel
  have cells : ∀ b ∈ threeBodies, ∀ offset ∈ (cellFrom 64 ((b.rid : Int) - 1)).toOption,
      352 ≤ offset ∧ offset + 4 ≤ threeMethods.length := by decide +kernel
  have htable : (headers threeMethods 64).tableStart +
      (sections threeMethods 64).length * Section.headerSize = 352 := by decide +kernel
  have hframe := apply_frame (t := ()) readAll_threeMethods (by decide +kernel)
    (fun b hb offset hp => by rw [htable]; exact stubs b hb offset (by rw [hp]; rfl))
    (fun b hb _ offset hc => by rw [htable]; exact cells b hb offset (by rw [hc]; rfl))
    threeWritten_eq_ok
  have hmoves : ∃ b ∈ threeBodies, moves (sections threeMethods 64) b = true := by decide +kernel
  have hheads : ∀ b ∈ threeBodies, b.compiled.head? ≠ some 0 := by decide +kernel
  exact ⟨hframe.1, hframe.2.1, fun i hi hslot =>
    (hframe.2.2.1 hmoves (by decide +kernel) i hi hslot).2 hheads⟩

/-- A body of one zero goes over a stub in the room for another section header; that room is taken
then, though it did not hold zeros only. -/
theorem apply_clears_slot :
    let file := slotMethod
    let bodies : List BodyPatch := [⟨1, 0x1168, 2, [0x00]⟩, ⟨2, 0x1168, 0, [0x0A, 0x00, 0x2A]⟩]
    let written := apply (cellFrom 64) file bodies ()
    Section.readAll file = .ok (headers file 64, sections file 64) ∧
      (headers file 64).optionalSize ≤ OptionalHeader.size (headers file 64).is64 ∧
      (∀ b ∈ bodies, ∀ offset ∈ (place? (sections file 64) b).toOption.join,
        (headers file 64).tableStart + (sections file 64).length * Section.headerSize ≤ offset ∧
          offset + b.stubSize ≤ file.length) ∧
      (∀ b ∈ bodies, ∀ offset ∈ (cellFrom 64 ((b.rid : Int) - 1)).toOption,
        ((headers file 64).tableStart + (sections file 64).length * Section.headerSize : Nat) ≤
          offset ∧ offset + 4 ≤ file.length) ∧
      written.result.toOption.isSome = true ∧ written.lines = [] ∧
      (∃ b ∈ bodies, moves (sections file 64) b = true) ∧
      ¬ ∀ i < file.length, InSlot (headers file 64) (sections file 64) i → file[i]? = some 0 := by
  intro file bodies written
  refine ⟨Sequence.toOption_eq_some.mp (by decide +kernel), by decide +kernel, by decide +kernel,
    by decide +kernel, by decide +kernel, by decide +kernel, by decide +kernel, fun h => ?_⟩
  exact absurd (h 360 (by decide +kernel) ⟨by decide +kernel, by decide +kernel⟩)
    (by decide +kernel)

end BodyPatch

end CilRestore
