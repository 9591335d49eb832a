import CilRestore.Module.Rows
import CilRestore.Proofs.Body.Compiled
import CilRestore.Proofs.Body.Restored
import CilRestore.Proofs.Image.Installed

/-!
# Patching again

A patched file is a fixed point of patching. Take the bodies as the file now has them, each with the
RVA that its row spells and with the stub that is read there (`BodyPatch.reread`). A compiled body
that stands at an offset is read as a stub of its own size, so it goes over itself, and no byte
changes (`BodyPatch.apply_of_stands`). Like finding the bodies, this takes an image that is growable
where some of them move.
-/

namespace CilRestore

/-! ### Compiled bytes -/

/-- Bytes that some body is compiled to. -/
def Bytes.IsCompiled (bytes : Bytes) : Prop :=
  ∃ b : MethodBody, (MethodBody.serializeNow b).result = .ok bytes

/-- Compiled bytes are a header, code and clauses that were laid out. -/
theorem Bytes.IsCompiled.serialized {bytes : Bytes} (h : bytes.IsCompiled) :
    ∃ (header : BodyHeader) (layout : Layout) (code : Bytes),
      code.length = layout.codeSize ∧ Nonempty (Serialized header layout code bytes) := by
  obtain ⟨b, hb⟩ := h
  have hends : MethodBody.serializeNow.Ends b bytes (MethodBody.serializeNow b).state := ⟨hb, rfl⟩
  obtain ⟨_, _, hread, hends⟩ := Action.ends_bind.mp hends
  obtain ⟨rfl, rfl⟩ := Action.ends_read.mp hread
  obtain ⟨layout, _, hout, hends⟩ := Action.ends_bind.mp hends
  obtain ⟨q, hlayout, rfl⟩ := Action.ends_within.mp hout
  obtain ⟨_, _, hread, hends⟩ := Action.ends_bind.mp hends
  obtain ⟨rfl, rfl⟩ := Action.ends_read.mp hread
  obtain ⟨code, hcode, written, -⟩ := serialized_of_ok (Action.ends_ofExcept.mp hends).1
  refine ⟨_, layout, code, ?_, ⟨written⟩⟩
  obtain ⟨-, hclauses⟩ := layout_of_ends hlayout
  rw [Pool.length_of_encodeAll hcode, hclauses]
  rfl

/-- Nothing is compiled to no bytes. -/
theorem Bytes.IsCompiled.ne_nil {bytes : Bytes} (h : bytes.IsCompiled) : bytes ≠ [] := by
  obtain ⟨_, _, _, -, ⟨written⟩⟩ := h.serialized
  exact written.body_ne_nil

/-- Where compiled bytes stand in a file, those with a fat header at a multiple of four, a stub of
their size is read. -/
theorem Bytes.IsCompiled.parse {bytes file : Bytes} (h : bytes.IsCompiled) {offset : Nat}
    (hinside : offset + bytes.length ≤ file.length)
    (hslice : Bytes.slice file offset bytes.length = bytes)
    (hfat : ∀ first rest, bytes = first :: rest → first.toNat % 4 = BodyFormat.fat → 4 ∣ offset)
    (token : Int) : ∃ stub, Stub.parse file (some (offset : Int)) token = .ok stub ∧
      stub.totalSize = bytes.length := by
  obtain ⟨header, layout, code, hlen, ⟨written⟩⟩ := h.serialized
  obtain ⟨before, after, rfl, rfl⟩ := Bytes.exists_append_of_slice hslice hinside
  have hparse := written.parse_append hlen (fun hnot => by
    obtain ⟨first, rest, hbytes, hfirst⟩ := written.exists_fat hnot
    exact hfat first rest hbytes hfirst) after token
  exact ⟨written.stub, hparse, rfl⟩

namespace BodyPatch

/-! ### Bodies over themselves -/

/-- A body as a file has it: with the RVA that its row spells and the stub that is read there. -/
def reread (sections : List Section) (cell : Int → Except Fault Int) (file : Bytes)
    (b : BodyPatch) : Except Fault BodyPatch := do
  let rva : Int := rvaIn cell file b
  let offset := (Section.offsetOf? sections rva).map fun offset : Nat => (offset : Int)
  let stub ← Stub.parse file offset (RowId.tokenValue ⟨.methodDef, b.rid⟩)
  return { b with rva, stubSize := stub.totalSize }

/-- A body goes over a stub of its size, where it stands already. -/
structure Stands (file : Bytes) (sections : List Section) (b : BodyPatch) (offset : Nat) :
    Prop where
  /-- There the body goes over its stub. -/
  place : place? sections b = .ok (some offset)
  /-- The stub is as long as the body. -/
  size_eq : b.stubSize = b.compiled.length
  /-- The body ends inside the file. -/
  inside : offset + b.compiled.length ≤ file.length
  /-- It stands there. -/
  slice_eq : Bytes.slice file offset b.compiled.length = b.compiled

variable {σ : Type} {file new : Bytes} {h h' : ImageHeaders} {sections sections' : List Section}
  {cell : Int → Except Fault Int} {b : BodyPatch} {bodies : List BodyPatch}

/-- A body goes over its stub where the stub is found, is no shorter and stands as the header of the
body asks for. -/
theorem place?_of_offset {offset : Nat} (hmap : Section.offsetOf? sections b.rva = some offset)
    (hrva : b.rva ≠ 0) (hne : b.compiled ≠ []) (hfit : b.compiled.length ≤ b.stubSize)
    (hfat : ∀ first rest, b.compiled = first :: rest → first.toNat % 4 = BodyFormat.fat →
      Int.fmod b.rva 4 = 0) : place? sections b = .ok (some offset) := by
  obtain ⟨first, rest, hc⟩ := List.exists_cons_of_ne_nil hne
  have hpos := List.length_pos_iff.mpr hne
  have hfits : fits b.stubSize b.rva b.compiled = .ok true := by
    unfold fits
    rw [if_neg (by rw [Bool.or_eq_true, decide_eq_true_eq, decide_eq_true_eq]; omega),
      if_neg (by omega), hc]
    simpa [Decidable.imp_iff_not_or] using hfat first rest hc
  rw [place?, hfits, hmap]
  rfl

/-- Writing a body over itself changes no byte. -/
theorem Stands.overwrite_eq {offset : Nat} (stands : Stands file sections b offset) :
    overwrite file offset b = file := by
  obtain ⟨-, hsize, hinside, hslice⟩ := stands
  have hcovering : b.covering = b.compiled := by
    rw [covering, hsize, Nat.sub_self, Bytes.zeros, List.replicate_zero, List.append_nil]
  apply List.ext_getElem?
  intro i
  rw [getElem?_overwrite (by omega) (by omega), hcovering]
  split
  · have hbyte := Bytes.slice_eq_iff.mp hslice (i - offset) (by omega)
    rw [← hbyte]
    congr 1
    omega
  · rfl

/-- Bodies that stand over their stubs stay there, and none is handed on. -/
theorem overwriteAll_of_stands (h : ∀ b ∈ bodies, ∃ offset, Stands file sections b offset)
    (moved : List BodyPatch) :
    overwriteAll sections bodies file moved = .ok (file, moved.reverse) := by
  induction bodies with
  | nil => rfl
  | cons b bodies ih =>
    obtain ⟨offset, stands⟩ := h b (by simp)
    rw [overwriteAll, stands.place]
    simp only
    rw [stands.overwrite_eq]
    exact ih fun x hx => h x (by simp [hx])

/-- Writing bodies that stand over their stubs answers the file as it is, and prints nothing. -/
theorem apply_of_stands (hread : Section.readAll file = .ok (h, sections))
    (hstands : ∀ b ∈ bodies, ∃ offset, Stands file sections b offset) (t : σ) :
    apply cell file bodies t = ⟨.ok file, t, []⟩ := by
  unfold apply
  simp only [bind, Action.bind, Action.ofExcept, hread, overwriteAll_of_stands hstands,
    List.reverse_nil, List.isEmpty_nil, if_true, pure, Action.pure, List.append_nil]

/-- A body whose row leads to it, compiled and at a place that its header allows, is found there as
a stub of its size, and goes over it. -/
theorem exists_reread (compiled : b.compiled.IsCompiled) {offset : Nat}
    (hrva : (rvaIn cell file b : Int) ≠ 0)
    (hleads : Section.offsetOf? sections (rvaIn cell file b : Int) = some offset)
    (hinside : offset + b.compiled.length ≤ file.length)
    (hslice : Bytes.slice file offset b.compiled.length = b.compiled)
    (hfat : ∀ first rest, b.compiled = first :: rest → first.toNat % 4 = BodyFormat.fat →
      4 ∣ rvaIn cell file b ∧ 4 ∣ offset) :
    ∃ again, reread sections cell file b = .ok again ∧ Stands file sections again offset := by
  obtain ⟨stub, hparse, hsize⟩ := compiled.parse hinside hslice
    (fun first rest hc hf => (hfat first rest hc hf).2) (RowId.tokenValue ⟨.methodDef, b.rid⟩)
  refine ⟨{ b with rva := rvaIn cell file b, stubSize := stub.totalSize }, ?_, ?_, hsize, hinside,
    hslice⟩
  · rw [reread, hleads, Option.map_some, hparse]
    rfl
  · refine place?_of_offset hleads hrva compiled.ne_nil (Nat.le_of_eq hsize.symm)
      fun first rest hc hf => ?_
    have hmultiple := (hfat first rest hc hf).1
    rw [Int.fmod_eq_emod_of_nonneg _ (by decide)]
    simp only
    omega

/-! ### Patching a patched file -/

/-- Compiled bodies that are written into an arranged image, which can grow if some of them move,
can all be read again from the new file. None of them then moves, and writing them answers the file
as it is. -/
theorem apply_reread {t : σ} (arranged : ArrangedImage file h sections)
    (growable : (∃ b ∈ bodies, moves sections b = true) → Growable h sections)
    (addresses : ∀ s ∈ sections, 0 < s.virtualAddress) (starts : ∀ s ∈ sections, 4 ∣ s.rawStart)
    (places : BodyPlaces sections cell bodies)
    (spells : ∀ b ∈ bodies, (rvaIn cell file b : Int) = b.rva)
    (compiled : ∀ b ∈ bodies, b.compiled.IsCompiled)
    (room : Grown.HasRoom file h sections (gather (bodies.filter (moves sections))).1.length)
    (hr : (apply cell file bodies t).result = .ok new) :
    ∃ h' sections' again, Section.readAll new = .ok (h', sections') ∧
      bodies.mapM (reread sections' cell new) = .ok again ∧
      (∀ b ∈ again, moves sections' b = false) ∧
      ∀ t' : σ, apply cell new again t' = ⟨.ok new, t', []⟩ := by
  obtain ⟨h', sections', installs⟩ := installs_of_apply arranged growable places
    (fun b hb => (compiled b hb).ne_nil) room hr
  have hagain : ∀ b ∈ bodies, ∃ again, reread sections' cell new b = .ok again ∧
      ∃ offset, Stands new sections' again offset := by
    intro b hb
    obtain ⟨offset, hleads, hinside, hslice, hfat⟩ := installs.leads
      (fun s hs => ⟨arranged.addressed s hs, starts s hs⟩) places hb (spells b hb)
    obtain ⟨again, hagain, stands⟩ := exists_reread (compiled b hb)
      (installs.rvaIn_ne_zero addresses places hb (spells b hb)) hleads hinside hslice hfat
    exact ⟨again, hagain, offset, stands⟩
  obtain ⟨again, hall⟩ := Sequence.exists_forall₂ hagain
  have hstands : ∀ b ∈ again, ∃ offset, Stands new sections' b offset := by
    intro b hb
    obtain ⟨_, -, -, hstands⟩ := Sequence.exists_mem_of_forall₂ hall.flip hb
    exact hstands
  refine ⟨h', sections', again, installs.read,
    Sequence.mapM_eq_ok.mpr (hall.imp fun _ _ => And.left), fun b hb => ?_,
    apply_of_stands installs.read hstands⟩
  obtain ⟨offset, stands⟩ := hstands b hb
  exact moves_of_place stands.place

/-- What patching again asks of an image and of bodies, except that growing does no harm. -/
structure IsRepatchable (file : Bytes) (h : ImageHeaders) (sections : List Section)
    (cell : Int → Except Fault Int) (bodies : List BodyPatch) : Prop
    extends IsRegular file h sections cell bodies where
  /-- Sections stand behind address 0. -/
  addresses : ∀ s ∈ sections, 0 < s.virtualAddress
  /-- In the file they start at multiples of four. -/
  starts : ∀ s ∈ sections, 4 ∣ s.rawStart
  /-- The rows spell the RVAs of the stubs. -/
  spells : ∀ b ∈ bodies, (rvaIn cell file b : Int) = b.rva
  /-- The bodies are compiled. -/
  compiled : ∀ b ∈ bodies, b.compiled.IsCompiled

end BodyPatch

/-! ### Small images -/

namespace SmallImage

/-- A body of instructions that do nothing, and of one that returns. -/
def idleBody (count : Nat) (initLocals : Bool) : MethodBody where
  stub := { initLocals }
  pool :=
    (Array.replicate count ⟨⟨0x00, "nop", .nothing, some 0, some 0, .next⟩, .nothing, 0, 0⟩).push
      ⟨⟨0x2A, "ret", .nothing, some 0, some 0, .returns⟩, .nothing, 0, 0⟩
  order := List.range (count + 1)

/-- What bodies that do nothing are compiled to. -/
theorem isCompiled_idle : Bytes.IsCompiled [0x02] ∧ Bytes.IsCompiled [0x0A, 0x00, 0x2A] ∧
    Bytes.IsCompiled fatBody :=
  ⟨⟨{}, Sequence.toOption_eq_some.mp (by decide +kernel)⟩,
    ⟨idleBody 1 false, Sequence.toOption_eq_some.mp (by decide +kernel)⟩,
    ⟨idleBody 1 true, Sequence.toOption_eq_some.mp (by decide +kernel)⟩⟩

/-- An image whose section starts halfway between two multiples of the alignment of sections, with
what could be a stub in the file at the second one. -/
def stubBetween : Bytes :=
  image 64 0 16 0x1008 8 [0x0C, 0x10, 0, 0, 0x06, 0x2A, 0, 0, 0x0E, 0, 0, 0x2A, 0, 0, 0, 0]

/-- The file with a body that is too long for its stub there. -/
def stubBetweenPatched : Bytes :=
  (BodyPatch.apply (cellFrom 64) stubBetween [movedBetween] ()).result.toOption.getD []

/-- That body as the file has it: its row leads to the other stub. -/
def rereadBetween : BodyPatch := ⟨1, 0x1010, 4, [0x0A, 0x00, 0x2A]⟩

end SmallImage

namespace BodyPatch

open SmallImage

/-- The small image with three bodies, one of them fat, is a fixed point. -/
theorem apply_reread_of_three :
    ∃ h' sections' again, Section.readAll threePatched = .ok (h', sections') ∧
      threeBodies.mapM (reread sections' (cellFrom 64) threePatched) = .ok again ∧
      (∀ b ∈ again, moves sections' b = false) ∧
      ∀ t' : Unit, apply (cellFrom 64) threePatched again t' = ⟨.ok threePatched, t', []⟩ := by
  have places : BodyPlaces (sections threeMethods 64) (cellFrom 64) threeBodies :=
    .of_offsets (fun b => 388 + 4 * b.rid) (fun b => 400 + 4 * b.rid) (by decide +kernel)
  have compiled : ∀ b ∈ threeBodies, b.compiled.IsCompiled := by
    obtain ⟨hempty, htiny, hfat⟩ := isCompiled_idle
    simp only [threeBodies, List.forall_mem_cons]
    exact ⟨hempty, htiny, hfat, by simp⟩
  exact apply_reread (t := ()) (arranged (by decide +kernel)) (fun _ => by decide +kernel)
    (by decide +kernel) (by decide +kernel) places (by decide +kernel) compiled
    ((Grown.hasRoom_iff ..).mpr (by decide +kernel)) threeWritten_eq_ok

/-- Growing may do harm. Where the new section begins among the addresses of the last one, the row
of a moved body may lead to another stub, which is written over; where the size of code is the place
of the headers, nothing can be read again. -/
theorem apply_reread_changes_without_growable :
    (IsRepatchable stubBetween (headers stubBetween 64) (sections stubBetween 64) (cellFrom 64)
        [movedBetween] ∧
      (apply (cellFrom 64) stubBetween [movedBetween] ()).result = .ok stubBetweenPatched ∧
      ∃ h' sections', Section.readAll stubBetweenPatched = .ok (h', sections') ∧
        [movedBetween].mapM (reread sections' (cellFrom 64) stubBetweenPatched) =
          .ok [rereadBetween] ∧
        (apply (cellFrom 64) stubBetweenPatched [rereadBetween] ()).result ≠
          .ok stubBetweenPatched) ∧
    (IsRepatchable overlapping (headers overlapping 32) (sections overlapping 32) (cellFrom 32)
        [movedOverlapping] ∧
      (apply (cellFrom 32) overlapping [movedOverlapping] ()).result = .ok overlappingPatched ∧
      ∀ read, Section.readAll overlappingPatched ≠ .ok read) := by
  obtain ⟨-, hone, -⟩ := isCompiled_idle
  have hbetween : IsRepatchable stubBetween (headers stubBetween 64) (sections stubBetween 64)
      (cellFrom 64) [movedBetween] :=
    ⟨⟨arranged (by decide +kernel), by decide +kernel,
      .of_offsets (fun _ => 392) (fun _ => 396) (by decide +kernel), by decide +kernel,
      (Grown.hasRoom_iff ..).mpr (by decide +kernel)⟩, by decide +kernel, by decide +kernel,
      by decide +kernel, List.forall_mem_singleton.mpr hone⟩
  have hoverlapping : IsRepatchable overlapping (headers overlapping 32) (sections overlapping 32)
      (cellFrom 32) [movedOverlapping] :=
    ⟨⟨arranged (by decide +kernel), by decide +kernel,
      .of_offsets (fun _ => 360) (fun _ => 364) (by decide +kernel), by decide +kernel,
      (Grown.hasRoom_iff ..).mpr (by decide +kernel)⟩, by decide +kernel, by decide +kernel,
      by decide +kernel, List.forall_mem_singleton.mpr hone⟩
  refine ⟨⟨hbetween, (Action.ends_getD (by decide +kernel) []).1, ?_⟩, hoverlapping,
    (Action.ends_getD (by decide +kernel) []).1, fun read hread => ?_⟩
  · have hread : (Section.readAll stubBetweenPatched).toOption =
        some (headers stubBetweenPatched 64, Section.listFrom stubBetweenPatched 2 312) := by
      decide +kernel
    refine ⟨_, _, Sequence.toOption_eq_some.mp hread,
      Sequence.toOption_eq_some.mp (by decide +kernel), fun hsame => ?_⟩
    have hchanged : (apply (cellFrom 64) stubBetweenPatched [rereadBetween] ()).result.toOption ≠
        some stubBetweenPatched := by decide +kernel
    exact hchanged (Sequence.toOption_eq_some.mpr hsame)
  · have hnone : (Section.readAll overlappingPatched).toOption = none := by decide +kernel
    rw [hread] at hnone
    cases hnone

end BodyPatch

end CilRestore
