import CilRestore.Proofs.Image.Patched
import CilRestore.Proofs.Module.Opened
import CilRestore.Proofs.Restorer.Restoring

/-!
# Reading restored bodies back

From the cache of a loaded module to the file with the bodies written into it, and back: in the new
file the row of a method leads, through the table of sections as it then is, to the body that was
restored into the method last. Methods that nothing was restored into keep their rows and their
stubs byte for byte.
-/

namespace CilRestore

namespace Module

/-- An arranged image with sections at multiples of four in the file, in which the cells of the rows
and the stubs of the methods lie in sections and apart from each other. -/
structure IsWellFormed (m : Module) (h : ImageHeaders) (sections : List Section) : Prop where
  /-- The image is arranged. -/
  arranged : ArrangedImage m.image h sections
  /-- In the file sections start at multiples of four. -/
  starts : ∀ s ∈ sections, 4 ∣ s.rawStart
  /-- The cells and the stubs are in their places. -/
  places : MethodPlaces m.image sections m.rvaCell m.rows.methodRids m.rows.rva
    fun rid => (m.stubOf rid).totalSize

/-- The image of a module has room for its bodies: it can grow where some of them move, and the
sizes and addresses that writing them leads to fit their fields. -/
def HasRoom (m : Module) (h : ImageHeaders) (sections : List Section) : Prop :=
  ∀ bodies m', patches.Ends m bodies m' →
    ((∃ b ∈ bodies, BodyPatch.moves sections b = true) → Growable h sections) ∧
      Grown.HasRoom m.image h sections
        (BodyPatch.gather (bodies.filter (BodyPatch.moves sections))).1.length

/-- A module without bodies carries no entries. -/
theorem Carries.refl {m : Module} (h : m.IsFresh) : Carries m m [] := by
  refine ⟨.refl m, ?_⟩
  intro rid hrid
  have hknown : m.knownBody? rid = none := by
    obtain ⟨hpos, hle⟩ := ModuleRows.mem_methodRids.mp hrid
    rw [knownBody?, if_neg (by omega), show m.bodies = _ from h, Array.getElem?_replicate,
      if_pos (by omega), Option.join_some]
  rw [bodyOf, hknown, Option.getD_none]

/-- The row of a method leads in a file to the stub of the method with code restored into it. -/
def ReadsBack (opened : Module) (new : Bytes) (sections' : List Section) (rid : Nat)
    (blob : Bytes) : Prop :=
  ∃ (cell rva offset : Nat) (chunks : List Chunk) (restored : Stub),
    opened.rvaCell ((rid : Int) - 1) = .ok (cell : Int) ∧ Bytes.field new cell 4 = rva ∧
      Section.offsetOf? sections' rva = some offset ∧
      Stub.parse new (some (offset : Int)) (RowId.tokenValue ⟨.methodDef, rid⟩) = .ok restored ∧
      restored.IsRestored (opened.stubOf rid) blob chunks

/-- The cell of a row and the bytes of the stub are in a file what they were. -/
def IsUntouched (opened : Module) (sections : List Section) (new : Bytes) (rid : Nat) : Prop :=
  (∀ cell : Nat, opened.rvaCell ((rid : Int) - 1) = .ok (cell : Int) →
    Bytes.SameOn opened.image new cell 4) ∧
  ∀ offset, Section.offsetOf? sections (opened.rows.rva rid) = some offset →
    Bytes.SameOn opened.image new offset (opened.stubOf rid).totalSize

variable {opened m m' : Module} {h : ImageHeaders} {sections : List Section}
  {done : List (CacheEntry × RestoreResult)}

/-- The bodies to be written of a module that carries entries. -/
theorem Carries.patches (carries : Carries opened m done)
    (hsize : opened.bodies.size = opened.rows.methods.size) {bodies : List BodyPatch}
    (hp : patches.Ends m bodies m') :
    SameFile m m' ∧ BodyPatch.AreFor bodies opened.rows.methodRids opened.rows.rva
      (fun rid => (opened.stubOf rid).totalSize) ∧
      (∀ b ∈ bodies, (∃ blob, opened.lastRestored done b.rid = some blob) ∧
        ∀ rid ∈ opened.rows.methodRids, opened.rows.rva rid = b.rva → rid = b.rid) ∧
      ∀ rid ∈ opened.rows.methodRids, ∀ blob, opened.lastRestored done rid = some blob →
        ∃ pool, ∃ b ∈ bodies, b.rid = rid ∧
          decode opened.scope (opened.rows.methodName rid) blob = .ok pool ∧
          (recompile (opened.stubOf rid) pool).result = .ok b.compiled := by
  have hfile := carries.file
  have hmodified : ∀ rid ∈ opened.rows.methodRids, (m.bodyOf rid).isModified = true →
      ∃ blob, opened.lastRestored done rid = some blob ∧ HasRestored opened m rid blob := by
    intro rid hrid hm
    rw [carries.isModified_eq hrid, Option.isSome_iff_exists] at hm
    exact hm.imp fun blob hl => ⟨hl, carries.restored rid hrid blob hl⟩
  obtain ⟨hfile', hbodies⟩ := ends_patches (by rw [hfile.size, hfile.rows, hsize])
    (fun rid hrid hm => by
      rw [hfile.rows] at hrid
      obtain ⟨blob, hl, -⟩ := hmodified rid hrid hm
      obtain ⟨_, bytes, -, -, hbytes⟩ := carries.compiled hrid hl
      exact ⟨bytes, hbytes⟩) hp
  rw [hfile.rows] at hbodies
  have hmem : ∀ b ∈ bodies, ∃ rid ∈ opened.rows.methodRids, (m.bodyOf rid).isModified = true ∧
      b = ⟨rid, opened.rows.rva rid, (m.bodyOf rid).stub.totalSize,
        (m.bodyOf rid).compiled.getD []⟩ := by
    intro b hb
    rw [hbodies] at hb
    obtain ⟨rid, hrid, rfl⟩ := List.mem_map.mp hb
    obtain ⟨hin, hm⟩ := List.mem_filter.mp hrid
    exact ⟨rid, hin, hm, rfl⟩
  refine ⟨hfile', ⟨?_, ?_, ?_⟩, ?_, ?_⟩
  · intro b hb
    obtain ⟨rid, hrid, -, rfl⟩ := hmem b hb
    exact ⟨hrid, rfl, by rw [carries.stub_eq hrid]⟩
  · intro b hb
    obtain ⟨rid, hrid, hm, rfl⟩ := hmem b hb
    obtain ⟨blob, hl, hrestored⟩ := hmodified rid hrid hm
    obtain ⟨pool, bytes, hdecode, hcompile, hbytes⟩ := carries.compiled hrid hl
    rw [hbytes, Option.getD_some]
    exact (parse_recompile opened.isFaithful_scope hdecode hrestored.filled
      (opened.stubOf_isOfWords rid) hcompile).1
  · rw [hbodies, List.pairwise_map]
    refine (opened.rows.nodup_methodRids.filter _).imp_of_mem ?_
    intro a b ha hb hne
    obtain ⟨hina, hma⟩ := List.mem_filter.mp ha
    obtain ⟨blob, -, hrestored⟩ := hmodified a hina hma
    exact ⟨hne, fun hrva => hne (hrestored.only b (List.mem_filter.mp hb).1 hrva.symm).symm⟩
  · intro b hb
    obtain ⟨rid, hrid, hm, rfl⟩ := hmem b hb
    obtain ⟨blob, hl, hrestored⟩ := hmodified rid hrid hm
    exact ⟨⟨blob, hl⟩, hrestored.only⟩
  · intro rid hrid blob hl
    have hrestored := carries.restored rid hrid blob hl
    obtain ⟨pool, bytes, hdecode, hcompile, hbytes⟩ := carries.compiled hrid hl
    refine ⟨pool, ⟨rid, opened.rows.rva rid, (m.bodyOf rid).stub.totalSize,
      (m.bodyOf rid).compiled.getD []⟩, ?_, rfl, hdecode, by rw [hbytes]; exact hcompile⟩
    rw [hbodies]
    exact List.mem_map.mpr ⟨rid, List.mem_filter.mpr ⟨hrid, hrestored.isModified⟩, rfl⟩

/-- A row without a body keeps its cell and its stub. -/
theorem isUntouched_of_installs (wf : opened.IsWellFormed h sections) {bodies : List BodyPatch}
    (fors : BodyPatch.AreFor bodies opened.rows.methodRids opened.rows.rva
      fun rid => (opened.stubOf rid).totalSize)
    {new : Bytes} {h' : ImageHeaders} {sections' : List Section}
    (installs : BodyPatch.Installs opened.image new sections opened.rvaCell bodies h' sections')
    {rid : Nat} (hrid : rid ∈ opened.rows.methodRids)
    (hother : ∀ b ∈ bodies, b.rid ≠ rid ∧ b.rva ≠ opened.rows.rva rid) :
    opened.IsUntouched sections new rid := by
  obtain ⟨cell, hcell, howns, -⟩ := wf.places.spells rid hrid
  constructor
  · intro place hplace
    rw [hcell, Except.ok.injEq] at hplace
    have hplace : cell = place := by omega
    subst hplace
    refine installs.keeps cell 4 howns fun b hb start count hw => ?_
    obtain ⟨hrow, -, hsize⟩ := fors.row b hb
    cases hw with
    | stub hp =>
      obtain ⟨-, hmap, hne⟩ := BodyPatch.owns_stub wf.places fors hb hp
      rw [hsize]
      exact (wf.places.cell_apart rid hrid b.rid hrow _ _ hcell hmap hne).symm
    | cell _ hc => exact wf.places.cells_apart b.rid hrow rid hrid (hother b hb).1 _ _ hc hcell
  · intro offset hmap
    rcases Nat.eq_zero_or_pos (opened.stubOf rid).totalSize with hz | hpos
    · intro i hl hu
      omega
    have hne := Nat.ne_of_gt hpos
    refine installs.keeps offset _ (wf.places.owns rid hrid offset hne hmap)
      fun b hb start count hw => ?_
    obtain ⟨hrow, hrva, hsize⟩ := fors.row b hb
    cases hw with
    | stub hp =>
      obtain ⟨-, hmapb, hneb⟩ := BodyPatch.owns_stub wf.places fors hb hp
      rw [hsize]
      exact wf.places.stubs_apart b.rid hrow rid hrid (by rw [← hrva]; exact (hother b hb).2) _ _
        hmapb hmap hneb hne
    | cell _ hc => exact wf.places.cell_apart b.rid hrow rid hrid _ _ hc hmap hne

/-- A body that is found by its row and was compiled from code is read back from there. -/
theorem readsBack_of_isInstalled {new : Bytes} {sections' : List Section} {b : BodyPatch}
    {blob : Bytes} {pool : Pool}
    (hi : BodyPatch.IsInstalled new sections' opened.rvaCell b)
    (hdecode : decode opened.scope (opened.rows.methodName b.rid) blob = .ok pool)
    (hne : blob ≠ []) (hcompile : (recompile (opened.stubOf b.rid) pool).result = .ok b.compiled) :
    opened.ReadsBack new sections' b.rid blob := by
  obtain ⟨cell, rva, offset, hcell, hspell, hmap, hin, hslice, halign⟩ := hi
  obtain ⟨-, chunks, hread⟩ := parse_recompile opened.isFaithful_scope hdecode hne
    (opened.stubOf_isOfWords b.rid) hcompile
  obtain ⟨before, after, rfl, rfl⟩ := Bytes.exists_append_of_slice hslice hin
  obtain ⟨restored, hparse, hrestored⟩ :=
    hread before halign after (RowId.tokenValue ⟨.methodDef, b.rid⟩)
  exact ⟨cell, rva, before.length, chunks, restored, hcell, hspell, hmap, hparse, hrestored⟩

/-- A module that carries entries is rebuilt to a file in which each method that something was
restored into is read back, and in which the others are untouched. -/
theorem Carries.rebuild (carries : Carries opened m done) (wf : opened.IsWellFormed h sections)
    (hsize : opened.bodies.size = opened.rows.methods.size) (room : m.HasRoom h sections)
    {new : Bytes} (hr : rebuild.Ends m new m') :
    ∃ h' sections', Section.readAll new = .ok (h', sections') ∧
      ∀ rid ∈ opened.rows.methodRids,
        (∀ blob, opened.lastRestored done rid = some blob →
          opened.ReadsBack new sections' rid blob) ∧
        (opened.lastRestored done rid = none → opened.IsUntouched sections new rid) := by
  have hfile := carries.file
  unfold Module.rebuild at hr
  obtain ⟨bodies, m1, hpatches, hr⟩ := Action.ends_bind.mp hr
  obtain ⟨_, _, hread, hr⟩ := Action.ends_bind.mp hr
  obtain ⟨rfl, rfl⟩ := Action.ends_read.mp hread
  obtain ⟨hfile1, fors, hbodies, hall⟩ := carries.patches hsize hpatches
  have himage : m1.image = opened.image := hfile1.image.trans hfile.image
  have hcell : m1.rvaCell = opened.rvaCell := hfile1.rvaCell_eq.trans hfile.rvaCell_eq
  split at hr
  · rename_i hnone
    obtain ⟨rfl, rfl⟩ := Action.ends_pure.mp hr
    rw [List.isEmpty_iff] at hnone
    refine ⟨h, sections, by rw [himage]; exact wf.arranged.read, fun rid hrid => ⟨?_, ?_⟩⟩
    · intro blob hl
      obtain ⟨_, b, hb, -⟩ := hall rid hrid blob hl
      rw [hnone] at hb
      cases hb
    · intro _
      rw [IsUntouched, himage]
      exact ⟨fun _ _ => .refl _ _ _, fun _ _ => .refl _ _ _⟩
  · obtain ⟨growable, hroom⟩ := room bodies m1 hpatches
    rw [himage, hcell] at hr
    rw [hfile.image] at hroom
    obtain ⟨h', sections', installs⟩ := BodyPatch.installs_of_apply wf.arranged growable
      (fors.places wf.places) fors.filled hroom hr.1
    refine ⟨h', sections', installs.read, fun rid hrid => ⟨?_, ?_⟩⟩
    · intro blob hl
      obtain ⟨pool, b, hb, rfl, hdecode, hcompile⟩ := hall rid hrid blob hl
      exact readsBack_of_isInstalled (installs.isInstalled wf.arranged wf.starts wf.places fors hb)
        hdecode
        (carries.restored b.rid hrid blob hl).filled hcompile
    · intro hl
      refine isUntouched_of_installs wf fors installs hrid fun b hb => ?_
      obtain ⟨⟨blob, hsome⟩, honly⟩ := hbodies b hb
      have hne : b.rid ≠ rid := by
        rintro rfl
        rw [hsome] at hl
        cases hl
      exact ⟨hne, fun hrva => hne (honly rid hrid hrva.symm).symm⟩

end Module

/-! ### A small file -/

namespace Sample

/-- A file of one section with two methods, each of which loads its first local variable and
returns. -/
def image : Bytes :=
  -- the old header
  [0x4D, 0x5A] ++ Bytes.zeros 58 ++ [0x40, 0x00, 0x00, 0x00] ++
  -- the signature and the file header
  [0x50, 0x45, 0x00, 0x00, 0x4C, 0x01, 0x01] ++ Bytes.zeros 13 ++ [0xE0, 0x00, 0x02, 0x01] ++
  -- the optional header
  [0x0B, 0x01, 0x00, 0x00, 0xB4] ++ Bytes.zeros 16 ++ [0x20] ++ Bytes.zeros 8 ++ [0x40, 0x00,
  0x00, 0x10, 0x00, 0x00, 0x00, 0x02, 0x00, 0x00, 0x04] ++ Bytes.zeros 7 ++ [0x04] ++
  Bytes.zeros 8 ++ [0x30, 0x00, 0x00, 0x00, 0x02] ++ Bytes.zeros 6 ++ [0x03] ++
  Bytes.zeros 23 ++ [0x10] ++ Bytes.zeros 116 ++ [0x20, 0x00, 0x00, 0x48] ++ Bytes.zeros 11 ++
  -- the header of the section and the space up to its data
  [0x2E, 0x74, 0x65, 0x78, 0x74, 0x00, 0x00, 0x00, 0xB4, 0x00, 0x00, 0x00, 0x00, 0x20, 0x00,
  0x00, 0xB4, 0x00, 0x00, 0x00, 0x00, 0x02] ++ Bytes.zeros 14 ++ [0x20, 0x00, 0x00, 0x60] ++
  Bytes.zeros 160 ++
  -- the header of the runtime
  [0x48, 0x00, 0x00, 0x00, 0x02, 0x00, 0x05, 0x00, 0x50, 0x20, 0x00, 0x00, 0x64, 0x00, 0x00,
  0x00, 0x01] ++ Bytes.zeros 55 ++
  -- the two stubs
  [0x06, 0x2A, 0x00, 0x00, 0x06, 0x2A, 0x00, 0x00] ++
  -- the root of the metadata
  [0x42, 0x53, 0x4A, 0x42, 0x01, 0x00, 0x01, 0x00, 0x00, 0x00, 0x00, 0x00, 0x0C, 0x00, 0x00,
  0x00, 0x76, 0x34, 0x2E, 0x30, 0x2E, 0x33, 0x30, 0x33, 0x31, 0x39, 0x00, 0x00, 0x00, 0x00, 0x01,
  0x00, 0x2C, 0x00, 0x00, 0x00, 0x38, 0x00, 0x00, 0x00, 0x23, 0x7E, 0x00, 0x00] ++
  -- the stream with the rows of the methods
  [0x00, 0x00, 0x00, 0x00, 0x02, 0x00, 0x00, 0x01, 0x40] ++ Bytes.zeros 15 ++ [0x02, 0x00, 0x00,
  0x00, 0x48, 0x20] ++ Bytes.zeros 10 ++ [0x01, 0x00, 0x4C, 0x20] ++ Bytes.zeros 10 ++ [0x01,
  0x00]

/-- The module in the file. -/
@[irreducible] def module_ : Module :=
  (Module.ofBytes image none).toOption.get (by decide +kernel)

/-- The file is read as the module. -/
theorem ofBytes_image : Module.ofBytes image none = .ok module_ := by
  refine Sequence.toOption_eq_some.mp ?_
  unfold module_
  exact (Option.some_get _).symm

theorem isFresh : module_.IsFresh := Module.isFresh_of_ofBytes ofBytes_image

/-- What is read of the file. -/
def found : ImageHeaders × List Section :=
  (Section.readAll module_.image).toOption.get (by decide +kernel)

/-- The headers of the file. -/
def headers : ImageHeaders := found.1

/-- The section of the file. -/
def sections : List Section := found.2

/-- The headers and the section are those of the file. -/
theorem readAll_image : Section.readAll module_.image = .ok (headers, sections) := by
  rw [headers, sections, Prod.mk.eta]
  exact Sequence.toOption_eq_some.mp (Option.some_get _).symm

/-- The facts that make the file an arranged image, and one that can grow. -/
theorem shape : headers.optionalSize ≤ OptionalHeader.size headers.is64 ∧
    sections.length = 1 ∧
    (∀ s ∈ sections, s.rawSize ≠ 0 →
      headers.tableStart + sections.length * Section.headerSize ≤ s.rawStart ∧
        s.rawStart + s.rawSize ≤ module_.image.length) ∧
    (∀ s ∈ sections, 4 ∣ s.virtualAddress ∧ 4 ∣ s.rawStart) ∧
    (0 < headers.sectionAlignment ∧ 4 ∣ headers.sectionAlignment) ∧
    (0 < headers.fileAlignment ∧ 4 ∣ headers.fileAlignment) ∧
    ImageHeaders.oldHeaderSize ≤ headers.start ∧ Growable headers sections := by
  decide +kernel

theorem arranged : ArrangedImage module_.image headers sections := by
  obtain ⟨optional_le, hone, inside, aligned, hs, hf, -⟩ := shape
  obtain ⟨s, hs'⟩ := List.length_eq_one_iff.mp hone
  refine ⟨readAll_image, optional_le, ?_, ?_, inside, fun s hs => (aligned s hs).1, hs, hf, ?_⟩
  · rw [hs']
    exact List.pairwise_singleton _ _
  · rw [hs']
    exact List.pairwise_singleton _ _
  · omega

/-- The cells of the two rows and their stubs are in their places. -/
theorem isWellFormed : module_.IsWellFormed headers sections where
  arranged := arranged
  starts s hs := (shape.2.2.2.1 s hs).2
  places := .of_offsets (fun rid => 650 + 14 * rid) (fun rid => 580 + 4 * rid) (by decide +kernel)

/-- The file can grow by what the small caches need. -/
theorem hasRoom : Grown.HasRoom module_.image headers sections 512 :=
  (Grown.hasRoom_iff ..).mpr (by decide +kernel)

/-- The module in a host that loads it at `0x400000` and whose cache holds code under keys. -/
def workspace (cache : List (Int × Bytes)) : Workspace where
  module_ := module_
  host := some
    { base := 0x400000
      items := cache.map fun item => ⟨item.1, .ok [("", some item.2)]⟩ }

/-- A restorer for the cache of the host. -/
def restorer : Restorer := { typeName := .text "T", fieldName := .text "f", bias := .integer 1 }

/-- A restorer that has harvested entries for the module. -/
def withEntries (entries : List CacheEntry) : Restorer × Workspace :=
  ({ restorer with stage := .harvested, base := 0x400000, entries }, workspace [])

/-- Reading the cache. -/
def harvested (w : Workspace) : Outcome (Restorer × Workspace) (List CacheEntry) :=
  Restorer.harvest (Workspace.bench w.methodIndex) (restorer, w)

/-- Restoring its entries. -/
def restored (w : Workspace) : Outcome (Restorer × Workspace) (List RestoreResult) :=
  Restorer.restore (Workspace.bench w.methodIndex) (harvested w).state

/-- Rebuilding the module. -/
def rebuilt (w : Workspace) : Outcome Module Bytes := Module.rebuild (restored w).state.2.module_

/-- The new file. -/
def newFile (w : Workspace) : Bytes := (rebuilt w).result.toOption.getD []

/-- What is put back, and what becomes of it. -/
def done (w : Workspace) : List (CacheEntry × RestoreResult) :=
  ((harvested w).result.toOption.getD []).zip ((restored w).result.toOption.getD [])

/-- A cache that is read, restored and written without a failure gives the new file, for which there
is room. -/
theorem ends {w : Workspace} (h : (harvested w).result.toOption.isSome ∧
      (restored w).result.toOption.isSome ∧ (rebuilt w).result.toOption.isSome ∧
      ((restored w).state.2.module_.image == module_.image) = true ∧
      (Module.patches (restored w).state.2.module_).result.toOption.all (fun bodies =>
        (BodyPatch.gather (bodies.filter (BodyPatch.moves sections))).1.length ≤ 512) = true) :
    (Restorer.harvest (Workspace.bench w.methodIndex)).Ends (restorer, w)
      ((harvested w).result.toOption.getD []) (harvested w).state ∧
    (Restorer.restore (Workspace.bench w.methodIndex)).Ends (harvested w).state
      ((restored w).result.toOption.getD []) (restored w).state ∧
    Module.rebuild.Ends (restored w).state.2.module_ (newFile w) (rebuilt w).state ∧
    (restored w).state.2.module_.HasRoom headers sections := by
  obtain ⟨hharvest, hrestore, hrebuild, himage, hsmall⟩ := h
  refine ⟨Action.ends_getD hharvest [], Action.ends_getD hrestore [],
    Action.ends_getD hrebuild [], ?_⟩
  intro bodies m' hp
  have hr := Sequence.toOption_eq_some.mpr hp.1
  rw [hr, Option.all_some, decide_eq_true_eq] at hsmall
  obtain ⟨-, -, -, -, -, -, -, growable⟩ := shape
  rw [eq_of_beq himage]
  exact ⟨fun _ => growable, hasRoom.mono arranged.fileAlignment.1 hsmall⟩

/-- The code that a row with its cell at an offset leads to in a file. -/
def codeAt (new : Bytes) (cell rid : Nat) : Option Bytes := do
  let read ← (Section.readAll new).toOption
  let offset ← Section.offsetOf? read.2 (Bytes.field new cell 4 : Int)
  let stub ← (Stub.parse new (some (offset : Int)) (RowId.tokenValue ⟨.methodDef, rid⟩)).toOption
  return stub.code

/-- Code for the first method, twice. -/
def twice : Workspace := workspace [(0x402049, [0x2A]), (0x402049, [0x00, 0x00, 0x00, 0x2A])]

/-- Code for the first method that loads a signalling number. -/
def signalling : Workspace := workspace [(0x402049, [0x22, 0x01, 0x00, 0xA0, 0x7F, 0x26, 0x2A])]

end Sample

/-! ### From the cache to the new file -/

/-- Harvesting a cache, restoring its entries and rebuilding the module gives a file in which each
method with a restored entry is read back as the last one, and in which the rows and stubs of the
others are as they were. -/
theorem restore_rebuild_parse {w : Workspace} {r : Restorer} {h : ImageHeaders}
    {sections : List Section} (hfresh : w.module_.IsFresh)
    (wf : w.module_.IsWellFormed h sections)
    {entries : List CacheEntry} {results : List RestoreResult} {s s' : Restorer × Workspace}
    (hharvest : (Restorer.harvest (Workspace.bench w.methodIndex)).Ends (r, w) entries s)
    (hrestore : (Restorer.restore (Workspace.bench w.methodIndex)).Ends s results s')
    (room : s'.2.module_.HasRoom h sections) {new : Bytes} {m' : Module}
    (hrebuild : Module.rebuild.Ends s'.2.module_ new m') :
    ∃ h' sections', Section.readAll new = .ok (h', sections') ∧
      ∀ rid ∈ w.module_.rows.methodRids,
        (∀ blob, w.module_.lastRestored (entries.zip results) rid = some blob →
          w.module_.ReadsBack new sections' rid blob) ∧
        (w.module_.lastRestored (entries.zip results) rid = none →
          w.module_.IsUntouched sections new rid) := by
  obtain ⟨hentries, hsame⟩ := Restorer.ends_harvest hharvest
  have hstart : Module.Carries w.module_ s.2.module_ [] := by
    rw [hsame]
    exact .refl hfresh
  obtain ⟨-, carries⟩ := Restorer.ends_restore hfresh.size hstart hrestore
  rw [hentries] at carries
  exact carries.rebuild wf hfresh.size room hrebuild

/-- Of two entries for the first method the second one is read back, and the second method is
untouched. -/
theorem restore_rebuild_parse_of_twice : ∃ entries results s s' new m' h' sections',
    (Restorer.harvest (Workspace.bench Sample.twice.methodIndex)).Ends
      (Sample.restorer, Sample.twice) entries s ∧
    (Restorer.restore (Workspace.bench Sample.twice.methodIndex)).Ends s results s' ∧
    Module.rebuild.Ends s'.2.module_ new m' ∧ Section.readAll new = .ok (h', sections') ∧
    Sample.module_.ReadsBack new sections' 1 [0x00, 0x00, 0x00, 0x2A] ∧
    Sample.module_.IsUntouched Sample.sections new 2 := by
  obtain ⟨hharvest, hrestore, hrebuild, hroom⟩ :=
    Sample.ends (w := Sample.twice) (by decide +kernel)
  obtain ⟨h', sections', hread, hrows⟩ := restore_rebuild_parse (w := Sample.twice)
    Sample.isFresh Sample.isWellFormed hharvest hrestore hroom hrebuild
  have hlast : 1 ∈ Sample.module_.rows.methodRids ∧ 2 ∈ Sample.module_.rows.methodRids ∧
      Sample.module_.lastRestored (Sample.done Sample.twice) 1 =
        some [0x00, 0x00, 0x00, 0x2A] ∧
      Sample.module_.lastRestored (Sample.done Sample.twice) 2 = none := by decide +kernel
  obtain ⟨hfirst, hsecond, hblob, hnone⟩ := hlast
  exact ⟨_, _, _, _, _, _, h', sections', hharvest, hrestore, hrebuild, hread,
    (hrows 1 hfirst).1 _ hblob, (hrows 2 hsecond).2 hnone⟩

/-- It is not always the code of the entry itself that is read back: a signalling number comes back
as a quiet one. That the headers lie behind the old one and that the image can grow does not help.
-/
theorem not_restored_code_eq_blob : ¬ ∀ {data : Bytes} {path : Option String} {w : Workspace}
    {r : Restorer} {h : ImageHeaders} {sections : List Section},
    Module.ofBytes data path = .ok w.module_ → w.module_.IsWellFormed h sections →
    ImageHeaders.oldHeaderSize ≤ h.start → Growable h sections →
    ∀ {entries : List CacheEntry} {results : List RestoreResult} {s s' : Restorer × Workspace},
    (Restorer.harvest (Workspace.bench w.methodIndex)).Ends (r, w) entries s →
    (Restorer.restore (Workspace.bench w.methodIndex)).Ends s results s' →
    s'.2.module_.HasRoom h sections → ∀ {new : Bytes} {m' : Module},
    Module.rebuild.Ends s'.2.module_ new m' →
    ∃ h' sections', Section.readAll new = .ok (h', sections') ∧
      ∀ rid ∈ w.module_.rows.methodRids, ∀ blob,
        w.module_.lastRestored (entries.zip results) rid = some blob →
        ∃ (cell rva offset : Nat) (restored : Stub),
          w.module_.rvaCell ((rid : Int) - 1) = .ok (cell : Int) ∧
          Bytes.field new cell 4 = rva ∧ Section.offsetOf? sections' rva = some offset ∧
          Stub.parse new (some (offset : Int)) (RowId.tokenValue ⟨.methodDef, rid⟩) =
            .ok restored ∧
          restored.code = blob := by
  intro claim
  obtain ⟨-, -, -, -, -, -, behind, growable⟩ := Sample.shape
  obtain ⟨hharvest, hrestore, hrebuild, hroom⟩ :=
    Sample.ends (w := Sample.signalling) (by decide +kernel)
  obtain ⟨h', sections', hread, hrows⟩ := claim (w := Sample.signalling)
    Sample.ofBytes_image Sample.isWellFormed behind growable hharvest hrestore hroom hrebuild
  have hlast : 1 ∈ Sample.module_.rows.methodRids ∧
      Sample.module_.lastRestored (Sample.done Sample.signalling) 1 =
        some [0x22, 0x01, 0x00, 0xA0, 0x7F, 0x26, 0x2A] ∧
      (Sample.module_.rvaCell ((1 : Nat) - 1)).toOption = some 664 ∧
      Sample.codeAt (Sample.newFile Sample.signalling) 664 1 =
        some [0x22, 0x01, 0x00, 0xE0, 0x7F, 0x26, 0x2A] := by decide +kernel
  obtain ⟨hfirst, hblob, hat, hquiet⟩ := hlast
  obtain ⟨cell, rva, offset, restored, hcell, hrva, hmap, hparse, hcode⟩ := hrows 1 hfirst _ hblob
  have hcell_eq : cell = 664 := by
    have hc := hat.symm.trans (Sequence.toOption_eq_some.mpr hcell)
    rw [Option.some.injEq] at hc
    omega
  have hfound : Sample.codeAt (Sample.newFile Sample.signalling) 664 1 = some restored.code := by
    simp only [Sample.codeAt, Sequence.toOption_eq_some.mpr hread, ← hcell_eq, hrva, hmap,
      Sequence.toOption_eq_some.mpr hparse, Option.bind_eq_bind, Option.bind_some,
      Option.pure_def]
  rw [hquiet, hcode] at hfound
  simp at hfound

end CilRestore
