import CilRestore.Proofs.Image.Patching

/-!
# Patched images

What writing bodies into an image leaves behind. Each body stands at the offset that its RVA leads
to, over its stub or in the space that the file grew by, and the cell of its row spells that RVA
(`BodyPatch.Installs`). What belongs to a section and is no cell and no stub of a written body is as
it was. That takes cells and stubs that lie in sections and apart from each other, be they those of
the bodies only (`BodyPatch.BodyPlaces`) or those of all rows (`MethodPlaces`).
-/

namespace CilRestore

/-! ### Rows and stubs -/

/-- Where the cells of rows and the stubs of their methods lie in a file: in sections, and apart
from each other. Rows of one RVA have one stub. -/
structure MethodPlaces (file : Bytes) (sections : List Section) (cell : Int → Except Fault Int)
    (rows : List Nat) (rva : Nat → Int) (stubSize : Nat → Nat) : Prop where
  /-- The cell of a row belongs to a section and spells the RVA. -/
  spells : ∀ rid ∈ rows, ∃ offset : Nat, cell ((rid : Int) - 1) = .ok (offset : Int) ∧
    Section.Owns sections offset 4 ∧ (Bytes.field file offset 4 : Int) = rva rid
  /-- A stub belongs to a section. -/
  owns : ∀ rid ∈ rows, ∀ offset, stubSize rid ≠ 0 →
    Section.offsetOf? sections (rva rid) = some offset →
    Section.Owns sections offset (stubSize rid)
  /-- Cells of different rows are apart. -/
  cells_apart : ∀ rid ∈ rows, ∀ rid' ∈ rows, rid ≠ rid' → ∀ offset offset' : Nat,
    cell ((rid : Int) - 1) = .ok (offset : Int) → cell ((rid' : Int) - 1) = .ok (offset' : Int) →
    Bytes.Apart offset 4 offset' 4
  /-- Stubs at different RVAs are apart. -/
  stubs_apart : ∀ rid ∈ rows, ∀ rid' ∈ rows, rva rid ≠ rva rid' → ∀ offset offset',
    Section.offsetOf? sections (rva rid) = some offset →
    Section.offsetOf? sections (rva rid') = some offset' →
    stubSize rid ≠ 0 → stubSize rid' ≠ 0 →
    Bytes.Apart offset (stubSize rid) offset' (stubSize rid')
  /-- Cells and stubs are apart. -/
  cell_apart : ∀ rid ∈ rows, ∀ rid' ∈ rows, ∀ offset offset' : Nat,
    cell ((rid : Int) - 1) = .ok (offset : Int) →
    Section.offsetOf? sections (rva rid') = some offset' → stubSize rid' ≠ 0 →
    Bytes.Apart offset 4 offset' (stubSize rid')

/-- Where the offsets of all cells and stubs are known, their places are checked one by one. -/
theorem MethodPlaces.of_offsets {file : Bytes} {sections : List Section}
    {cell : Int → Except Fault Int} {rows : List Nat} {rva : Nat → Int} {stubSize : Nat → Nat}
    (cellAt stubAt : Nat → Nat)
    (h : (∀ rid ∈ rows, (cell ((rid : Int) - 1)).toOption = some (cellAt rid : Int) ∧
        Section.Owns sections (cellAt rid) 4 ∧
        (Bytes.field file (cellAt rid) 4 : Int) = rva rid ∧
        Section.offsetOf? sections (rva rid) = some (stubAt rid) ∧
        Section.Owns sections (stubAt rid) (stubSize rid)) ∧
      ∀ rid ∈ rows, ∀ rid' ∈ rows,
        (rid ≠ rid' → Bytes.Apart (cellAt rid) 4 (cellAt rid') 4) ∧
        (rva rid ≠ rva rid' →
          Bytes.Apart (stubAt rid) (stubSize rid) (stubAt rid') (stubSize rid')) ∧
        Bytes.Apart (cellAt rid) 4 (stubAt rid') (stubSize rid')) :
    MethodPlaces file sections cell rows rva stubSize := by
  obtain ⟨hrow, hapart⟩ := h
  have hcell_eq : ∀ rid ∈ rows, ∀ offset : Nat,
      cell ((rid : Int) - 1) = .ok (offset : Int) → offset = cellAt rid := by
    intro rid hrid offset h
    have hat := (hrow rid hrid).1
    rw [h, Except.toOption, Option.some.injEq] at hat
    omega
  have hstub_eq : ∀ rid ∈ rows, ∀ offset,
      Section.offsetOf? sections (rva rid) = some offset → offset = stubAt rid := by
    intro rid hrid offset h
    rw [(hrow rid hrid).2.2.2.1, Option.some.injEq] at h
    exact h.symm
  constructor
  · intro rid hrid
    obtain ⟨hat, howns, hspell, -⟩ := hrow rid hrid
    exact ⟨cellAt rid, Sequence.toOption_eq_some.mp hat, howns, hspell⟩
  · intro rid hrid offset _ hmap
    rw [hstub_eq rid hrid offset hmap]
    exact (hrow rid hrid).2.2.2.2
  · intro rid hrid rid' hrid' hne offset offset' hc hc'
    rw [hcell_eq rid hrid offset hc, hcell_eq rid' hrid' offset' hc']
    exact (hapart rid hrid rid' hrid').1 hne
  · intro rid hrid rid' hrid' hne offset offset' hmap hmap' _ _
    rw [hstub_eq rid hrid offset hmap, hstub_eq rid' hrid' offset' hmap']
    exact (hapart rid hrid rid' hrid').2.1 hne
  · intro rid hrid rid' hrid' offset offset' hc hmap _
    rw [hcell_eq rid hrid offset hc, hstub_eq rid' hrid' offset' hmap]
    exact (hapart rid hrid rid' hrid').2.2

namespace BodyPatch

/-- Bodies for rows of an image: not empty, one for a row and one for an RVA. -/
structure AreFor (bodies : List BodyPatch) (rows : List Nat) (rva : Nat → Int)
    (stubSize : Nat → Nat) : Prop where
  /-- Each body has the RVA and the stub of its row. -/
  row : ∀ b ∈ bodies, b.rid ∈ rows ∧ b.rva = rva b.rid ∧ b.stubSize = stubSize b.rid
  /-- No body is empty. -/
  filled : ∀ b ∈ bodies, b.compiled ≠ []
  /-- They are for different rows at different RVAs. -/
  distinct : bodies.Pairwise fun a b => a.rid ≠ b.rid ∧ a.rva ≠ b.rva

/-- A range of a file that writing a body changes: its stub, or the cell of its row. -/
inductive Writes (sections : List Section) (cell : Int → Except Fault Int) (b : BodyPatch) :
    Nat → Nat → Prop
  /-- A body that fits is written over its stub. -/
  | stub {offset : Nat} : place? sections b = .ok (some offset) →
    Writes sections cell b offset b.stubSize
  /-- The row of another body is pointed to where the body is. -/
  | cell {offset : Nat} : moves sections b = true → cell ((b.rid : Int) - 1) = .ok (offset : Int) →
    Writes sections cell b offset 4

/-- A body is found in a file by its row: the cell of the row spells an RVA, the table of sections
leads from there to an offset, and the body stands there. -/
def IsInstalled (file : Bytes) (sections : List Section) (cell : Int → Except Fault Int)
    (b : BodyPatch) : Prop :=
  ∃ place rva offset : Nat, cell ((b.rid : Int) - 1) = .ok (place : Int) ∧
    Bytes.field file place 4 = rva ∧ Section.offsetOf? sections rva = some offset ∧
    offset + b.compiled.length ≤ file.length ∧
    Bytes.slice file offset b.compiled.length = b.compiled ∧
    ∀ first rest, b.compiled = first :: rest → first.toNat % 4 = BodyFormat.fat → 4 ∣ offset

/-- Where the cells and the stubs of bodies lie: in sections, and apart from each other. -/
structure BodyPlaces (sections : List Section) (cell : Int → Except Fault Int)
    (bodies : List BodyPatch) : Prop where
  /-- The cell of a body belongs to a section. -/
  cells : ∀ b ∈ bodies, ∃ offset : Nat, cell ((b.rid : Int) - 1) = .ok (offset : Int) ∧
    Section.Owns sections offset 4
  /-- A stub belongs to a section. -/
  stubs : ∀ b ∈ bodies, ∀ offset, b.stubSize ≠ 0 →
    Section.offsetOf? sections b.rva = some offset → Section.Owns sections offset b.stubSize
  /-- Cells are apart. -/
  cells_apart : bodies.Pairwise fun a b => ∀ offset offset' : Nat,
    cell ((a.rid : Int) - 1) = .ok (offset : Int) → cell ((b.rid : Int) - 1) = .ok (offset' : Int) →
    Bytes.Apart offset 4 offset' 4
  /-- Stubs are apart. -/
  stubs_apart : bodies.Pairwise fun a b => ∀ offset offset',
    Section.offsetOf? sections a.rva = some offset →
    Section.offsetOf? sections b.rva = some offset' → a.stubSize ≠ 0 → b.stubSize ≠ 0 →
    Bytes.Apart offset a.stubSize offset' b.stubSize
  /-- Cells and stubs are apart. -/
  cell_apart : ∀ a ∈ bodies, ∀ b ∈ bodies, ∀ offset offset' : Nat,
    cell ((a.rid : Int) - 1) = .ok (offset : Int) →
    Section.offsetOf? sections b.rva = some offset' → b.stubSize ≠ 0 →
    Bytes.Apart offset 4 offset' b.stubSize

/-- Where the offsets of all cells and stubs are known, the places of bodies are checked one by
one. -/
theorem BodyPlaces.of_offsets {sections : List Section} {cell : Int → Except Fault Int}
    {bodies : List BodyPatch} (cellAt stubAt : BodyPatch → Nat)
    (h : (∀ b ∈ bodies, (cell ((b.rid : Int) - 1)).toOption = some (cellAt b : Int) ∧
        Section.Owns sections (cellAt b) 4 ∧
        Section.offsetOf? sections b.rva = some (stubAt b) ∧
        Section.Owns sections (stubAt b) b.stubSize) ∧
      (bodies.Pairwise fun a b => Bytes.Apart (cellAt a) 4 (cellAt b) 4 ∧
        Bytes.Apart (stubAt a) a.stubSize (stubAt b) b.stubSize) ∧
      ∀ a ∈ bodies, ∀ b ∈ bodies, Bytes.Apart (cellAt a) 4 (stubAt b) b.stubSize) :
    BodyPlaces sections cell bodies := by
  obtain ⟨hbody, hpair, hcross⟩ := h
  have hcell : ∀ b ∈ bodies, ∀ offset : Nat,
      cell ((b.rid : Int) - 1) = .ok (offset : Int) → offset = cellAt b := by
    intro b hb offset h
    have hat := (hbody b hb).1
    rw [h, Except.toOption, Option.some.injEq] at hat
    omega
  have hstub : ∀ b ∈ bodies, ∀ offset,
      Section.offsetOf? sections b.rva = some offset → offset = stubAt b := by
    intro b hb offset h
    rw [(hbody b hb).2.2.1, Option.some.injEq] at h
    exact h.symm
  constructor
  · intro b hb
    obtain ⟨hat, howns, -⟩ := hbody b hb
    exact ⟨cellAt b, Sequence.toOption_eq_some.mp hat, howns⟩
  · intro b hb offset _ hmap
    rw [hstub b hb offset hmap]
    exact (hbody b hb).2.2.2
  · refine hpair.imp_of_mem fun ha hb hab offset offset' hc hc' => ?_
    rw [hcell _ ha offset hc, hcell _ hb offset' hc']
    exact hab.1
  · refine hpair.imp_of_mem fun ha hb hab offset offset' hmap hmap' _ _ => ?_
    rw [hstub _ ha offset hmap, hstub _ hb offset' hmap']
    exact hab.2
  · intro a ha b hb offset offset' hc hmap _
    rw [hcell a ha offset hc, hstub b hb offset' hmap]
    exact hcross a ha b hb

/-- The RVA that the cell of the row of a body spells. -/
def rvaIn (cell : Int → Except Fault Int) (file : Bytes) (b : BodyPatch) : Nat :=
  match cell ((b.rid : Int) - 1) with
  | .ok offset => Bytes.field file offset.toNat 4
  | .error _ => 0

/-- A body stands over its stub, with zeros behind it, and its row is as it was. -/
structure IsOver (file new : Bytes) (sections sections' : List Section)
    (cell : Int → Except Fault Int) (b : BodyPatch) (offset : Nat) : Prop where
  /-- There the body goes over its stub. -/
  place : place? sections b = .ok (some offset)
  /-- The table of sections still leads from the RVA of the stub to it. -/
  leads : Section.offsetOf? sections' b.rva = some offset
  /-- The stub ends inside the file. -/
  inside : offset + b.stubSize ≤ new.length
  /-- The body and the zeros take its bytes. -/
  covers : Bytes.slice new offset b.stubSize = b.covering
  /-- The cell of the row did not change. -/
  cell_same : ∀ place : Nat, cell ((b.rid : Int) - 1) = .ok (place : Int) →
    Bytes.SameOn file new place 4

/-- A body stands in new space, and its row is pointed there. -/
structure IsMoved (new : Bytes) (sections sections' : List Section)
    (cell : Int → Except Fault Int) (b : BodyPatch) (offset : Nat) : Prop where
  /-- The RVA in the cell of the row is a multiple of four. -/
  addressed : 4 ∣ rvaIn cell new b
  /-- It is not 0 when those of the sections are not. -/
  positive : (∀ s ∈ sections, 0 < s.virtualAddress) → 0 < rvaIn cell new b
  /-- The offset is one when sections start at such offsets. -/
  aligned : (∀ s ∈ sections, 4 ∣ s.rawStart) → 4 ∣ offset
  /-- The table of sections leads from that RVA to the offset. -/
  leads : Section.offsetOf? sections' (rvaIn cell new b : Int) = some offset
  /-- The body ends inside the file. -/
  inside : offset + b.compiled.length ≤ new.length
  /-- It stands there. -/
  slice_eq : Bytes.slice new offset b.compiled.length = b.compiled
  /-- It lies beside what belonged to the sections. -/
  apart : ∀ start count, 0 < count → Section.Owns sections start count →
    Bytes.Apart offset b.compiled.length start count

/-- What writing bodies into an image leaves behind. -/
structure Installs (file new : Bytes) (sections : List Section) (cell : Int → Except Fault Int)
    (bodies : List BodyPatch) (h' : ImageHeaders) (sections' : List Section) : Prop where
  /-- The headers and the table of sections can be read. -/
  read : Section.readAll new = .ok (h', sections')
  /-- Addresses that led to the file lead to the same offsets. -/
  maps : ∀ (rva : Int) (offset : Nat), Section.offsetOf? sections rva = some offset →
    Section.offsetOf? sections' rva = some offset
  /-- What belongs to a section is unchanged beside what the bodies write. -/
  keeps : ∀ start count, Section.Owns sections start count →
    (∀ b ∈ bodies, ∀ start' count', Writes sections cell b start' count' →
      Bytes.Apart start' count' start count) → Bytes.SameOn file new start count
  /-- A body that does not move stands over its stub. -/
  stays : ∀ b ∈ bodies, moves sections b = false →
    ∃ offset, IsOver file new sections sections' cell b offset
  /-- A body that moves stands where its row is pointed. -/
  moved : ∀ b ∈ bodies, moves sections b = true →
    ∃ offset, IsMoved new sections sections' cell b offset
  /-- Moved bodies do not overlap in memory. -/
  rvas_apart : bodies.Pairwise fun a b => moves sections a = true → moves sections b = true →
    Bytes.Apart (rvaIn cell new a) a.compiled.length (rvaIn cell new b) b.compiled.length
  /-- They do not overlap in the file. -/
  offsets_apart : bodies.Pairwise fun a b => moves sections a = true → moves sections b = true →
    ∀ offset offset', Section.offsetOf? sections' (rvaIn cell new a : Int) = some offset →
      Section.offsetOf? sections' (rvaIn cell new b : Int) = some offset' →
      Bytes.Apart offset a.compiled.length offset' b.compiled.length

variable {sections : List Section} {cell : Int → Except Fault Int} {b : BodyPatch} {file : Bytes}
  {h : ImageHeaders} {bodies : List BodyPatch}

/-- The RVA of a body in a file is what its cell spells. -/
theorem rvaIn_of_cell {offset : Nat} (hc : cell ((b.rid : Int) - 1) = .ok (offset : Int))
    (file : Bytes) : rvaIn cell file b = Bytes.field file offset 4 := by
  rw [rvaIn, hc]
  rfl

namespace BodyPlaces

/-- The stub that a body goes over belongs to a section. -/
theorem owns (places : BodyPlaces sections cell bodies) (hb : b ∈ bodies) {offset : Nat}
    (hp : place? sections b = .ok (some offset)) : Section.Owns sections offset b.stubSize := by
  obtain ⟨hmap, -, hne, -, -⟩ := place?_eq_some hp
  exact places.stubs b hb offset hne hmap

/-- The cell of a body belongs to a section. -/
theorem owns_cell (places : BodyPlaces sections cell bodies) (hb : b ∈ bodies) {offset : Nat}
    (hc : cell ((b.rid : Int) - 1) = .ok (offset : Int)) : Section.Owns sections offset 4 := by
  obtain ⟨offset', hc', ho⟩ := places.cells b hb
  rw [hc, Except.ok.injEq] at hc'
  have hc' : offset = offset' := by omega
  rwa [hc']

/-- The cell of a body over its stub is beside all that bodies write. -/
theorem apart_cell (places : BodyPlaces sections cell bodies) (hb : b ∈ bodies)
    (hm : moves sections b = false) {place : Nat}
    (hplace : cell ((b.rid : Int) - 1) = .ok (place : Int)) {x : BodyPatch} (hx : x ∈ bodies)
    {start count : Nat} (hw : Writes sections cell x start count) :
    Bytes.Apart start count place 4 := by
  cases hw with
  | stub hp =>
    obtain ⟨hmap, -, hne, -, -⟩ := place?_eq_some hp
    exact (places.cell_apart b hb x hx _ _ hplace hmap hne).symm
  | cell hmx hcx =>
    have hne : x ≠ b := by
      rintro rfl
      rw [hm] at hmx
      cases hmx
    have hsymm : Std.Symm fun a b : BodyPatch => ∀ offset offset' : Nat,
        cell ((a.rid : Int) - 1) = .ok (offset : Int) →
        cell ((b.rid : Int) - 1) = .ok (offset' : Int) → Bytes.Apart offset 4 offset' 4 :=
      ⟨fun _ _ h o o' ho ho' => (h o' o ho' ho).symm⟩
    exact places.cells_apart.forall hx hb hne _ _ hcx hplace

/-- What holds of bodies holds of some of them. -/
theorem filter (places : BodyPlaces sections cell bodies) (p : BodyPatch → Bool) :
    BodyPlaces sections cell (bodies.filter p) where
  cells b hb := places.cells b (List.mem_filter.mp hb).1
  stubs b hb := places.stubs b (List.mem_filter.mp hb).1
  cells_apart := places.cells_apart.filter p
  stubs_apart := places.stubs_apart.filter p
  cell_apart a ha b hb := places.cell_apart a (List.mem_filter.mp ha).1 b (List.mem_filter.mp hb).1

end BodyPlaces

/-- Writing the bodies that fit keeps the image arranged. -/
theorem arranged_overwriteAll (arranged : ArrangedImage file h sections)
    (places : BodyPlaces sections cell bodies) (hne : sections ≠ []) {file' : Bytes}
    {moved : List BodyPatch} (hover : overwriteAll sections bodies file [] = .ok (file', moved)) :
    moved = bodies.filter (moves sections) ∧ file'.length = file.length ∧
      (∃ h', ArrangedImage file' h' sections ∧ (Growable h sections → Growable h' sections) ∧
        ∀ size, Grown.HasRoom file h sections size → Grown.HasRoom file' h' sections size) ∧
      (∀ start count, (∀ b ∈ bodies, ∀ offset, place? sections b = .ok (some offset) →
        Bytes.Apart offset b.stubSize start count) → Bytes.SameOn file file' start count) ∧
      ∀ b ∈ bodies, moves sections b = true ∨ ∃ offset,
        place? sections b = .ok (some offset) ∧
          Bytes.slice file' offset b.stubSize = b.covering := by
  have howned : ∀ b ∈ bodies, ∀ offset, place? sections b = .ok (some offset) →
      h.tableStart + sections.length * Section.headerSize ≤ offset ∧
        offset + b.stubSize ≤ file.length := by
    intro b hb offset hp
    obtain ⟨-, -, hpos, -, -⟩ := place?_eq_some hp
    exact arranged.owned (Nat.pos_of_ne_zero hpos) (places.owns hb hp)
  have hin := fun b hb offset hp => (howned b hb offset hp).2
  have hapart : bodies.Pairwise fun a b => ∀ offset offset',
      place? sections a = .ok (some offset) → place? sections b = .ok (some offset') →
      Bytes.Apart offset a.stubSize offset' b.stubSize := by
    refine places.stubs_apart.imp fun hab offset offset' hpa hpb => ?_
    obtain ⟨hmapa, -, hnea, -, -⟩ := place?_eq_some hpa
    obtain ⟨hmapb, -, hneb, -, -⟩ := place?_eq_some hpb
    exact hab offset offset' hmapa hmapb hnea hneb
  obtain ⟨hmoved, hlen, hsame⟩ := overwriteAll_frame hover hin
  obtain ⟨h', harranged, hgrowable, hsection, hfile⟩ := arranged.of_sameOn hne hlen
    (hsame _ _ fun b hb offset hp => Or.inr (by have := howned b hb offset hp; omega))
  refine ⟨hmoved, hlen, ⟨h', harranged, hgrowable, fun size room => ?_⟩, hsame,
    overwriteAll_put hover hin hapart⟩
  constructor
  · rw [hsection]
    exact room.address
  · rw [hlen, hfile]
    exact room.place
  · rw [hfile]
    exact room.size_lt
  · rw [hfile]
    exact room.extended

/-- A file that grew carries the data, whichever way it grew. -/
theorem Grows.carries (arranged : ArrangedImage file h sections) (growable : Growable h sections)
    (hdata : ∃ s ∈ sections, s.rawSize ≠ 0) {data : Bytes}
    (room : Grown.HasRoom file h sections data.length) {g : Grown} {lines : List String}
    (hg : Grows file h sections data g lines) :
    ∃ h' sections' base, Grown.Carries file sections data g h' sections' base := by
  cases hg with
  | appended hadd hgrow =>
    obtain ⟨g', h', sections', base, hgrow', hcarries⟩ :=
      Grown.appendSection_carries arranged growable room hadd hdata
    rw [hgrow, Except.ok.injEq] at hgrow'
    subst hgrow'
    exact ⟨h', sections', base, hcarries⟩
  | extended _ hgrow => exact Grown.extendLast_carries arranged growable room hgrow

/-- Bodies that all go over their stubs are installed when they are written. -/
theorem installs_of_over (arranged : ArrangedImage file h sections)
    (places : BodyPlaces sections cell bodies) (hne : sections ≠ []) {new : Bytes}
    (hover : overwriteAll sections bodies file [] = .ok (new, [])) :
    ∃ h', Installs file new sections cell bodies h' sections := by
  obtain ⟨hmoved, hlen, ⟨h', harranged, -, -⟩, hsame, hput⟩ :=
    arranged_overwriteAll arranged places hne hover
  have hnone : ∀ b ∈ bodies, moves sections b = false := fun b hb => by
    simpa using List.filter_eq_nil_iff.mp hmoved.symm b hb
  have hkeeps : ∀ start count, (∀ b ∈ bodies, ∀ start' count',
      Writes sections cell b start' count' → Bytes.Apart start' count' start count) →
      Bytes.SameOn file new start count := fun start count hap =>
    hsame start count fun b hb offset hp => hap b hb _ _ (.stub hp)
  have hmoves : ∀ b ∈ bodies, moves sections b = true → False := fun b hb hm => by
    rw [hnone b hb] at hm
    cases hm
  refine ⟨h', harranged.read, fun _ _ hm => hm, fun start count _ => hkeeps start count,
    fun b hb hm => ?_, fun b hb hm => (hmoves b hb hm).elim, ?_, ?_⟩
  · rcases hput b hb with hmb | ⟨offset, hp, hslice⟩
    · exact (hmoves b hb hmb).elim
    · obtain ⟨hmap, -, hpos, -, -⟩ := place?_eq_some hp
      have hin := arranged.owned (Nat.pos_of_ne_zero hpos) (places.owns hb hp)
      exact ⟨offset, hp, hmap, by omega, hslice, fun place hplace =>
        hkeeps place 4 fun x hx start count hw => places.apart_cell hb hm hplace hx hw⟩
  · exact List.pairwise_of_forall_mem_list fun a ha b _ hma => (hmoves a ha hma).elim
  · exact List.pairwise_of_forall_mem_list fun a ha b _ hma => (hmoves a ha hma).elim

section grown

variable {covered new : Bytes} {moved : List BodyPatch} {g : Grown} {h' : ImageHeaders}
  {sections' : List Section} {base : Nat}

/-- The cells of moved bodies are inside a file that carries the bodies. -/
theorem BodyPlaces.inside (places : BodyPlaces sections cell moved)
    (carries : Grown.Carries covered sections (gather moved).1 g h' sections' base) :
    ∀ entry ∈ (gather moved).2, ∀ offset, cell ((entry.1.rid : Int) - 1) = .ok offset →
      0 ≤ offset ∧ offset + 4 ≤ g.data.length := by
  intro entry hentry offset hc
  obtain ⟨place, hplace, howns⟩ := places.cells entry.1 (mem_of_mem_gather hentry)
  rw [hc, Except.ok.injEq] at hplace
  have := carries.inside place 4 (by decide) howns
  omega

/-- A file that carries bodies is read as before when their rows are pointed. -/
theorem readAll_repoint (places : BodyPlaces sections cell moved)
    (carries : Grown.Carries covered sections (gather moved).1 g h' sections' base)
    (hne : sections' ≠ []) (hrepoint : repoint cell g.rva (gather moved).2 g.data = .ok new) :
    ∃ h'', Section.readAll new = .ok (h'', sections') := by
  obtain ⟨hlength, hbeside⟩ := repoint_frame hrepoint (places.inside carries)
  have htable : Bytes.SameOn g.data new 0
      (h'.tableStart + sections'.length * Section.headerSize) := by
    refine hbeside _ _ fun entry hentry offset hc => Or.inr ?_
    have := carries.front offset 4 (by decide) (places.owns_cell (mem_of_mem_gather hentry) hc)
    omega
  obtain ⟨h'', hread, -⟩ := Section.readAll_of_sameOn carries.read hne (by omega) htable
  exact ⟨h'', hread⟩

/-- What belongs to a section stays when a file grows and rows are pointed into it, unless the cell
of one of these lies in it. -/
theorem sameOn_repoint (places : BodyPlaces sections cell moved)
    (carries : Grown.Carries covered sections (gather moved).1 g h' sections' base)
    (hrepoint : repoint cell g.rva (gather moved).2 g.data = .ok new) {start count : Nat}
    (ho : Section.Owns sections start count)
    (hap : ∀ b ∈ moved, ∀ offset : Nat, cell ((b.rid : Int) - 1) = .ok (offset : Int) →
      Bytes.Apart offset 4 start count) : Bytes.SameOn covered new start count := by
  obtain ⟨-, hbeside⟩ := repoint_frame hrepoint (places.inside carries)
  exact (carries.keeps start count ho).trans
    (hbeside start count fun entry hentry => hap entry.1 (mem_of_mem_gather hentry))

/-- The row of a body that a file carries spells where it stands, once it is pointed. -/
theorem rvaIn_repoint (places : BodyPlaces sections cell moved)
    (carries : Grown.Carries covered sections (gather moved).1 g h' sections' base)
    (hrepoint : repoint cell g.rva (gather moved).2 g.data = .ok new) :
    ∀ entry ∈ (gather moved).2, rvaIn cell new entry.1 = g.rva + entry.2 := by
  have hapart : (gather moved).2.Pairwise fun a b => ∀ offset offset' : Nat,
      cell ((a.1.rid : Int) - 1) = .ok (offset : Int) →
      cell ((b.1.rid : Int) - 1) = .ok (offset' : Int) → Bytes.Apart offset 4 offset' 4 := by
    have hpair := places.cells_apart
    rw [← (gather_spec moved).1, List.pairwise_map] at hpair
    exact hpair
  intro entry hentry
  obtain ⟨offset, hc, -⟩ := places.cells entry.1 (mem_of_mem_gather hentry)
  rw [rvaIn_of_cell hc]
  exact repoint_put hrepoint (places.inside carries) hapart entry hentry offset hc

/-- A body that a file carries stands where its row leads, once that is pointed. -/
theorem isMoved_repoint (places : BodyPlaces sections cell moved)
    (filled : ∀ b ∈ moved, b.compiled ≠ [])
    (carries : Grown.Carries covered sections (gather moved).1 g h' sections' base)
    (hrepoint : repoint cell g.rva (gather moved).2 g.data = .ok new) :
    ∀ entry ∈ (gather moved).2, IsMoved new sections sections' cell entry.1 (base + entry.2) := by
  obtain ⟨hlength, hbeside⟩ := repoint_frame hrepoint (places.inside carries)
  intro entry hentry
  have hspell := rvaIn_repoint places carries hrepoint entry hentry
  have hstand := (gather_spec moved).2.1 entry hentry
  have hinside := hstand.inside
  have hpos := List.length_pos_iff.mpr (filled entry.1 (mem_of_mem_gather hentry))
  have hblob := Bytes.le_length_of_slice carries.holds (List.length_pos_iff.mp (by omega))
  have hapart : ∀ start count, 0 < count → Section.Owns sections start count →
      Bytes.Apart (base + entry.2) entry.1.compiled.length start count := by
    intro start count hc ho
    rcases carries.apart start count hc ho with h | h
    · exact Or.inl (by omega)
    · exact Or.inr (by omega)
  have hsame : Bytes.SameOn g.data new (base + entry.2) entry.1.compiled.length :=
    hbeside _ _ fun other hother offset hc => (hapart offset 4 (by decide)
      (places.owns_cell (mem_of_mem_gather hother) hc)).symm
  refine ⟨?_, fun hall => ?_,
    fun hstarts => Nat.dvd_add (carries.aligned hstarts) hstand.aligned, ?_, by omega, ?_, hapart⟩
  · rw [hspell]
    exact Nat.dvd_add carries.addressed hstand.aligned
  · rw [hspell]
    exact Nat.add_pos_left (carries.positive hall) _
  · rw [hspell]
    exact carries.leads entry.2 (by omega)
  · rw [hsame.slice_eq, Bytes.slice_of_slice carries.holds hinside]
    exact hstand.slice_eq

/-- Bodies of which some are moved are installed when the rows of these are pointed into a file that
has grown by them. -/
theorem installs_of_grown (arranged : ArrangedImage file h sections)
    (places : BodyPlaces sections cell bodies) (filled : ∀ b ∈ bodies, b.compiled ≠ [])
    (hne : sections ≠ []) (hsome : moved ≠ [])
    (hover : overwriteAll sections bodies file [] = .ok (covered, moved))
    (carries : Grown.Carries covered sections (gather moved).1 g h' sections' base)
    (hrepoint : repoint cell g.rva (gather moved).2 g.data = .ok new) :
    ∃ h'', Installs file new sections cell bodies h'' sections' := by
  obtain ⟨hmoved, -, -, hsame, hput⟩ := arranged_overwriteAll arranged places hne hover
  have hmem : ∀ b, b ∈ moved ↔ b ∈ bodies ∧ moves sections b = true := fun b => by
    rw [hmoved, List.mem_filter]
  have places' : BodyPlaces sections cell moved := hmoved ▸ places.filter _
  have filled' : ∀ b ∈ moved, b.compiled ≠ [] := fun b hb => filled b ((hmem b).mp hb).1
  obtain ⟨hlist, -, horder⟩ := gather_spec moved
  have hspell := rvaIn_repoint places' carries hrepoint
  have hput' := isMoved_repoint places' filled' carries hrepoint
  have hlength := (repoint_frame hrepoint (places'.inside carries)).1
  have hkeeps : ∀ start count, Section.Owns sections start count → (∀ b ∈ bodies,
      ∀ start' count', Writes sections cell b start' count' →
        Bytes.Apart start' count' start count) → Bytes.SameOn file new start count := by
    intro start count ho hap
    refine (hsame start count fun b hb offset hp => hap b hb _ _ (.stub hp)).trans ?_
    refine sameOn_repoint places' carries hrepoint ho fun b hb offset hc => ?_
    exact hap b ((hmem b).mp hb).1 _ _ (.cell ((hmem b).mp hb).2 hc)
  have hentry : ∀ b ∈ moved, ∃ place, (b, place) ∈ (gather moved).2 := by
    intro b hb
    rw [← hlist] at hb
    obtain ⟨⟨_, place⟩, hin, rfl⟩ := List.mem_map.mp hb
    exact ⟨place, hin⟩
  obtain ⟨first, hfirst⟩ := List.exists_mem_of_ne_nil _ hsome
  obtain ⟨start, hstart⟩ := hentry first hfirst
  have hne' : sections' ≠ [] := by
    rintro rfl
    cases (hput' _ hstart).leads
  obtain ⟨h'', hread⟩ := readAll_repoint places' carries hne' hrepoint
  refine ⟨h'', hread, carries.maps, hkeeps, fun b hb hm => ?_, fun b hb hm => ?_, ?_, ?_⟩
  · rcases hput b hb with hmb | ⟨offset, hp, hslice⟩
    · rw [hm] at hmb
      cases hmb
    obtain ⟨hmap, -, hpos, -, -⟩ := place?_eq_some hp
    have howns := places.owns hb hp
    have hin := carries.inside offset b.stubSize (Nat.pos_of_ne_zero hpos) howns
    refine ⟨offset, hp, carries.maps _ _ hmap, by omega, ?_, fun place hplace => ?_⟩
    · rw [← hslice]
      refine (sameOn_repoint places' carries hrepoint howns fun x hx o hc => ?_).slice_eq
      exact places.cell_apart _ ((hmem x).mp hx).1 _ hb _ _ hc hmap hpos
    · exact hkeeps place 4 (places.owns_cell hb hplace) fun x hx start count hw =>
        places.apart_cell hb hm hplace hx hw
  · obtain ⟨place, hplace⟩ := hentry b ((hmem b).mpr ⟨hb, hm⟩)
    exact ⟨base + place, hput' _ hplace⟩
  · rw [← List.pairwise_filter, ← hmoved, ← hlist, List.pairwise_map]
    refine horder.imp_of_mem fun hx hy hxy => Or.inl ?_
    rw [hspell _ hx, hspell _ hy]
    omega
  · rw [← List.pairwise_filter, ← hmoved, ← hlist, List.pairwise_map]
    refine horder.imp_of_mem fun hx hy hxy offset offset' ho ho' => Or.inl ?_
    rw [(hput' _ hx).leads, Option.some.injEq] at ho
    rw [(hput' _ hy).leads, Option.some.injEq] at ho'
    omega

end grown

/-- Bodies that are written into an arranged image, which can grow if some of them move, are
installed. -/
theorem installs_of_apply {σ : Type} {t : σ} (arranged : ArrangedImage file h sections)
    (growable : (∃ b ∈ bodies, moves sections b = true) → Growable h sections)
    (places : BodyPlaces sections cell bodies)
    (filled : ∀ b ∈ bodies, b.compiled ≠ [])
    (room : Grown.HasRoom file h sections (gather (bodies.filter (moves sections))).1.length)
    {new : Bytes} (hr : (apply cell file bodies t).result = .ok new) :
    ∃ h' sections', Installs file new sections cell bodies h' sections' := by
  obtain ⟨covered, moved, hover, hmade⟩ := apply_cases arranged.read hr
  by_cases hbodies : bodies = []
  · subst hbodies
    simp only [overwriteAll, List.reverse_nil, Except.ok.injEq, Prod.mk.injEq] at hover
    obtain ⟨rfl, rfl⟩ := hover
    obtain ⟨-, rfl, -⟩ | ⟨hsome, -⟩ := hmade
    · exact ⟨h, sections, arranged.read, fun _ _ hm => hm, fun _ _ _ _ => .refl _ _ _, by simp,
        by simp, .nil, .nil⟩
    · exact absurd rfl hsome
  -- some section has data, since the cell of a row lies in one
  obtain ⟨first, hfirst⟩ := List.exists_mem_of_ne_nil _ hbodies
  obtain ⟨_, -, source, hsource, hl, hu⟩ := places.cells first hfirst
  have hdata : ∃ s ∈ sections, s.rawSize ≠ 0 := ⟨source, hsource, by omega⟩
  have hne : sections ≠ [] := List.ne_nil_of_mem hsource
  obtain ⟨hmoved, -, ⟨h1, harranged, hgrowable, hroom⟩, -, -⟩ :=
    arranged_overwriteAll arranged places hne hover
  rcases hmade with ⟨rfl, rfl, -⟩ | ⟨hsome, hmove, -⟩
  · obtain ⟨h', installs⟩ := installs_of_over arranged places hne hover
    exact ⟨h', sections, installs⟩
  · have hgo : ∃ b ∈ bodies, moves sections b = true := by
      obtain ⟨b, hb⟩ := List.exists_mem_of_ne_nil _ hsome
      exact ⟨b, List.mem_filter.mp (hmoved ▸ hb)⟩
    obtain ⟨h2, sections2, g, hread, hgrows, hrepoint⟩ := relocate_cases hmove
    rw [harranged.read, Except.ok.injEq, Prod.mk.injEq] at hread
    obtain ⟨rfl, rfl⟩ := hread
    obtain ⟨h', sections', base, carries⟩ := Grows.carries harranged (hgrowable (growable hgo))
      hdata (hroom _ (hmoved ▸ room)) hgrows
    obtain ⟨h'', installs⟩ := installs_of_grown arranged places filled hne hsome hover carries
      hrepoint
    exact ⟨h'', sections', installs⟩

namespace Installs

variable {new : Bytes} {h' : ImageHeaders} {sections' : List Section}

/-- The cell of the row of a body over its stub spells what it did. -/
theorem rvaIn_eq (places : BodyPlaces sections cell bodies)
    (installs : Installs file new sections cell bodies h' sections') (hb : b ∈ bodies)
    (hm : moves sections b = false) : rvaIn cell new b = rvaIn cell file b := by
  obtain ⟨place, hplace, -⟩ := places.cells b hb
  obtain ⟨offset, hover⟩ := installs.stays b hb hm
  rw [rvaIn_of_cell hplace, rvaIn_of_cell hplace]
  exact (hover.cell_same place hplace).field_eq

/-- The cell of the row of a written body does not spell 0, if none of the sections stands there. -/
theorem rvaIn_ne_zero (addresses : ∀ s ∈ sections, 0 < s.virtualAddress)
    (places : BodyPlaces sections cell bodies)
    (installs : Installs file new sections cell bodies h' sections') (hb : b ∈ bodies)
    (hspell : (rvaIn cell file b : Int) = b.rva) : (rvaIn cell new b : Int) ≠ 0 := by
  cases hm : moves sections b with
  | true =>
    obtain ⟨offset, hmoved⟩ := installs.moved b hb hm
    have := hmoved.positive addresses
    omega
  | false =>
    obtain ⟨offset, hover⟩ := installs.stays b hb hm
    obtain ⟨-, hne, -⟩ := place?_eq_some hover.place
    rw [installs.rvaIn_eq places hb hm, hspell]
    exact hne

/-- A written body stands where the cell of its row leads, one with a fat header at a multiple of
four, in memory and in the file, if the cell spelled the RVA of the stub before. -/
theorem leads (aligned : ∀ s ∈ sections, 4 ∣ s.virtualAddress ∧ 4 ∣ s.rawStart)
    (places : BodyPlaces sections cell bodies)
    (installs : Installs file new sections cell bodies h' sections') (hb : b ∈ bodies)
    (hspell : (rvaIn cell file b : Int) = b.rva) :
    ∃ offset, Section.offsetOf? sections' (rvaIn cell new b : Int) = some offset ∧
      offset + b.compiled.length ≤ new.length ∧
      Bytes.slice new offset b.compiled.length = b.compiled ∧
      ∀ first rest, b.compiled = first :: rest → first.toNat % 4 = BodyFormat.fat →
        4 ∣ rvaIn cell new b ∧ 4 ∣ offset := by
  cases hm : moves sections b with
  | true =>
    obtain ⟨offset, hmoved⟩ := installs.moved b hb hm
    exact ⟨offset, hmoved.leads, hmoved.inside, hmoved.slice_eq, fun _ _ _ _ =>
      ⟨hmoved.addressed, hmoved.aligned fun s hs => (aligned s hs).2⟩⟩
  | false =>
    obtain ⟨offset, hover⟩ := installs.stays b hb hm
    obtain ⟨hmap, -, -, hfit, hfat⟩ := place?_eq_some hover.place
    have hinside := hover.inside
    have hsame := installs.rvaIn_eq places hb hm
    rw [hsame, hspell]
    refine ⟨offset, hover.leads, by omega, (slices_of_covering hfit hover.covers).1,
      fun first rest hc hf => ?_⟩
    have hmultiple := hfat first rest hc hf
    refine ⟨?_, Section.dvd_offsetOf? aligned hmap hmultiple⟩
    rw [← hspell, Int.fmod_eq_emod_of_nonneg _ (by decide)] at hmultiple
    omega

end Installs

/-! ### Bodies for rows -/

section rows

variable {rows : List Nat} {rva : Nat → Int} {stubSize : Nat → Nat}

/-- The stub that a body goes over belongs to a section. -/
theorem owns_stub (places : MethodPlaces file sections cell rows rva stubSize)
    (fors : AreFor bodies rows rva stubSize) (hb : b ∈ bodies) {offset : Nat}
    (hp : place? sections b = .ok (some offset)) :
    Section.Owns sections offset b.stubSize ∧
      Section.offsetOf? sections (rva b.rid) = some offset ∧ stubSize b.rid ≠ 0 := by
  obtain ⟨hrow, hrva, hsize⟩ := fors.row b hb
  obtain ⟨hmap, -, hne, -, -⟩ := place?_eq_some hp
  rw [hrva] at hmap
  rw [hsize] at hne
  refine ⟨?_, hmap, hne⟩
  rw [hsize]
  exact places.owns b.rid hrow offset hne hmap

/-- Bodies for rows whose cells and stubs are in their places have theirs there. -/
theorem AreFor.places (fors : AreFor bodies rows rva stubSize)
    (places : MethodPlaces file sections cell rows rva stubSize) :
    BodyPlaces sections cell bodies where
  cells b hb := by
    obtain ⟨offset, hc, ho, -⟩ := places.spells b.rid (fors.row b hb).1
    exact ⟨offset, hc, ho⟩
  stubs b hb offset hne hmap := by
    obtain ⟨hrow, hrva, hsize⟩ := fors.row b hb
    rw [hrva] at hmap
    rw [hsize] at hne ⊢
    exact places.owns b.rid hrow offset hne hmap
  cells_apart := fors.distinct.imp_of_mem fun ha hb hd _ _ hc hc' =>
    places.cells_apart _ (fors.row _ ha).1 _ (fors.row _ hb).1 hd.1 _ _ hc hc'
  stubs_apart := by
    refine fors.distinct.imp_of_mem fun {a b} ha hb hd offset offset' hmap hmap' hne hne' => ?_
    obtain ⟨hrowa, hrvaa, hsizea⟩ := fors.row a ha
    obtain ⟨hrowb, hrvab, hsizeb⟩ := fors.row b hb
    rw [hrvaa] at hmap
    rw [hrvab] at hmap'
    rw [hsizea] at hne ⊢
    rw [hsizeb] at hne' ⊢
    exact places.stubs_apart _ hrowa _ hrowb (by rw [← hrvaa, ← hrvab]; exact hd.2) _ _ hmap hmap'
      hne hne'
  cell_apart a ha b hb offset offset' hc hmap hne := by
    obtain ⟨hrow, hrva, hsize⟩ := fors.row b hb
    rw [hrva] at hmap
    rw [hsize] at hne ⊢
    exact places.cell_apart _ (fors.row a ha).1 _ hrow _ _ hc hmap hne

/-- An installed body is found by its row. -/
theorem Installs.isInstalled (arranged : ArrangedImage file h sections)
    (starts : ∀ s ∈ sections, 4 ∣ s.rawStart)
    (places : MethodPlaces file sections cell rows rva stubSize)
    (fors : AreFor bodies rows rva stubSize) {new : Bytes} {h' : ImageHeaders}
    {sections' : List Section} (installs : Installs file new sections cell bodies h' sections')
    (hb : b ∈ bodies) : IsInstalled new sections' cell b := by
  obtain ⟨hrow, hrva, -⟩ := fors.row b hb
  obtain ⟨place, hplace, -, hspell⟩ := places.spells b.rid hrow
  rw [← hrva, ← rvaIn_of_cell hplace] at hspell
  obtain ⟨offset, hleads, hinside, hslice, hfat⟩ :=
    installs.leads (fun s hs => ⟨arranged.addressed s hs, starts s hs⟩) (fors.places places) hb
      hspell
  exact ⟨place, rvaIn cell new b, offset, hplace, (rvaIn_of_cell hplace new).symm, hleads, hinside,
    hslice, fun first rest hc hf => (hfat first rest hc hf).2⟩

end rows

end BodyPatch

end CilRestore
