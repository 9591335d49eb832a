import CilRestore.Image.Patch
import CilRestore.Proofs.Actions
import CilRestore.Proofs.Body.Serialized
import CilRestore.Proofs.Image.GrownRead
import Mathlib.Data.List.Pairwise

/-!
# The steps of patching

What each step of writing bodies into an image does to the file. Going over stubs and pointing rows
change the stubs and the cells and nothing else, wherever these lie (`overwriteAll_frame`,
`repoint_frame`); where they do not overlap, what is written last is read back. The bodies that do
not fit are put one behind the other, and the file grows by them (`apply_cases`,
`relocate_cases`).
-/

namespace CilRestore

namespace BodyPatch

variable {sections : List Section} {b : BodyPatch}

/-! ### Over the stub -/

/-- When a body goes over its stub, and where. -/
theorem place?_eq_some {offset : Nat} (h : place? sections b = .ok (some offset)) :
    Section.offsetOf? sections b.rva = some offset ∧ b.rva ≠ 0 ∧ b.stubSize ≠ 0 ∧
      b.compiled.length ≤ b.stubSize ∧
      ∀ first rest, b.compiled = first :: rest → first.toNat % 4 = BodyFormat.fat →
        Int.fmod b.rva 4 = 0 := by
  obtain ⟨fitting, hfits, h⟩ := Sequence.bind_eq_ok.mp h
  cases fitting with
  | false => cases h
  | true =>
    simp only [if_true, pure, Except.pure, Except.ok.injEq] at h
    unfold fits at hfits
    split at hfits
    · cases hfits
    rename_i hpresent
    split at hfits
    · cases hfits
    rename_i hlong
    simp only [Bool.or_eq_true, decide_eq_true_eq, not_or] at hpresent
    refine ⟨h, hpresent.1, hpresent.2, by omega, ?_⟩
    intro first rest hc hfat
    rw [hc] at hfits
    simpa [hfat] using hfits

/-- The bytes that a body leaves where its stub was. -/
def covering (b : BodyPatch) : Bytes :=
  b.compiled ++ Bytes.zeros (b.stubSize - b.compiled.length)

/-- A body with the zeros behind it is as long as its stub. -/
theorem length_covering (h : b.compiled.length ≤ b.stubSize) : b.covering.length = b.stubSize := by
  rw [covering, List.length_append, Bytes.zeros, List.length_replicate]
  omega

/-- Where the bytes that a body leaves stand, the body stands and zeros behind it. -/
theorem slices_of_covering (h : b.compiled.length ≤ b.stubSize) {file : Bytes} {offset : Nat}
    (hc : Bytes.slice file offset b.stubSize = b.covering) :
    Bytes.slice file offset b.compiled.length = b.compiled ∧
      Bytes.slice file (offset + b.compiled.length) (b.stubSize - b.compiled.length) =
        Bytes.zeros (b.stubSize - b.compiled.length) := by
  have hlen := length_covering h
  have hzeros : (Bytes.zeros (b.stubSize - b.compiled.length)).length =
      b.stubSize - b.compiled.length := by rw [Bytes.zeros, List.length_replicate]
  rw [← hlen] at hc
  constructor
  · have hbody : Bytes.slice file (offset + 0) b.compiled.length =
        Bytes.slice b.covering 0 b.compiled.length := Bytes.slice_of_slice hc (by omega)
    rw [Nat.add_zero] at hbody
    rw [hbody, covering, Bytes.slice, List.drop_zero, List.take_left]
  · have hrest := Bytes.slice_append_right b.compiled
      (Bytes.zeros (b.stubSize - b.compiled.length))
    rw [hzeros] at hrest
    rw [Bytes.slice_of_slice hc (by omega), covering, hrest]

/-- Writing a body over its stub changes the bytes of the stub only. -/
theorem getElem?_overwrite {file : Bytes} {offset : Nat} (h : b.compiled.length ≤ b.stubSize)
    (hin : offset + b.stubSize ≤ file.length) (i : Nat) :
    (overwrite file offset b)[i]? =
      if offset ≤ i ∧ i < offset + b.stubSize then b.covering[i - offset]? else file[i]? := by
  have hzeros : (Bytes.zeros (b.stubSize - b.compiled.length)).length =
      b.stubSize - b.compiled.length := by
    rw [Bytes.zeros, List.length_replicate]
  have hlen : (Bytes.splice file offset (offset + b.compiled.length) b.compiled).length =
      file.length := Bytes.length_splice (by omega) (by omega) (by omega)
  rw [overwrite, Bytes.getElem?_splice (by omega) (by omega) (by omega),
    Bytes.getElem?_splice (by omega) (by omega) (by omega), covering, List.getElem?_append]
  by_cases hl : offset ≤ i ∧ i < offset + b.compiled.length
  · rw [if_neg (by omega), if_pos hl, if_pos (by omega), if_pos (by omega)]
  · by_cases hu : offset ≤ i ∧ i < offset + b.stubSize
    · rw [if_pos (by omega), if_pos hu, if_neg (by omega)]
      congr 1
      omega
    · rw [if_neg (by omega), if_neg hl, if_neg hu]

/-- Writing it over the stub keeps the length of the file. -/
theorem length_overwrite {file : Bytes} {offset : Nat} (h : b.compiled.length ≤ b.stubSize)
    (hin : offset + b.stubSize ≤ file.length) : (overwrite file offset b).length = file.length := by
  have hlen : (Bytes.splice file offset (offset + b.compiled.length) b.compiled).length =
      file.length := Bytes.length_splice (by omega) (by omega) (by omega)
  rw [overwrite, Bytes.length_splice (by omega) (by omega)
    (by rw [Bytes.zeros, List.length_replicate]; omega), hlen]

/-- Whether a body does not go over its stub. -/
def moves (sections : List Section) (b : BodyPatch) : Bool :=
  match place? sections b with
  | .ok none => true
  | _ => false

/-- A body that has a place over its stub does not move. -/
theorem moves_of_place {offset : Nat} (h : place? sections b = .ok (some offset)) :
    moves sections b = false := by rw [moves, h]

section stubs

variable {bodies moved rest : List BodyPatch} {file file' : Bytes}

/-- Writing the bodies that fit changes their stubs only and hands on the others in their order. -/
theorem overwriteAll_frame (h : overwriteAll sections bodies file moved = .ok (file', rest))
    (hin : ∀ b ∈ bodies, ∀ offset, place? sections b = .ok (some offset) →
      offset + b.stubSize ≤ file.length) :
    rest = moved.reverse ++ bodies.filter (moves sections) ∧ file'.length = file.length ∧
      ∀ start count, (∀ b ∈ bodies, ∀ offset, place? sections b = .ok (some offset) →
        Bytes.Apart offset b.stubSize start count) → Bytes.SameOn file file' start count := by
  induction bodies generalizing file moved with
  | nil =>
    simp only [overwriteAll, Except.ok.injEq, Prod.mk.injEq] at h
    obtain ⟨rfl, rfl⟩ := h
    exact ⟨by simp, rfl, fun _ _ _ => .refl _ _ _⟩
  | cons b bodies ih =>
    unfold overwriteAll at h
    split at h
    · cases h
    · rename_i offset hplace
      obtain ⟨-, -, -, hfit, -⟩ := place?_eq_some hplace
      have hinb := hin b (by simp) offset hplace
      have hlen := length_overwrite hfit hinb
      obtain ⟨hrest, hlength, hsame⟩ := ih h (fun x hx => by rw [hlen]; exact hin x (by simp [hx]))
      refine ⟨?_, hlength.trans hlen, fun start count ha => ?_⟩
      · rw [hrest, List.filter_cons, moves_of_place hplace]
        rfl
      · refine Bytes.SameOn.trans ?_ (hsame start count fun x hx => ha x (by simp [hx]))
        intro i hl hu
        have := ha b (by simp) offset hplace
        rw [getElem?_overwrite hfit hinb, if_neg (by rcases this with h | h <;> omega)]
    · rename_i hplace
      obtain ⟨hrest, hlength, hsame⟩ := ih h fun x hx => hin x (by simp [hx])
      have hmoves : moves sections b = true := by rw [moves, hplace]
      refine ⟨?_, hlength, fun start count ha => hsame start count fun x hx => ha x (by simp [hx])⟩
      rw [hrest, List.filter_cons, hmoves]
      simp

/-- Each body that fits is left over its stub when no other is written there. -/
theorem overwriteAll_put (h : overwriteAll sections bodies file moved = .ok (file', rest))
    (hin : ∀ b ∈ bodies, ∀ offset, place? sections b = .ok (some offset) →
      offset + b.stubSize ≤ file.length)
    (hapart : bodies.Pairwise fun a b => ∀ offset offset',
      place? sections a = .ok (some offset) → place? sections b = .ok (some offset') →
      Bytes.Apart offset a.stubSize offset' b.stubSize) :
    ∀ b ∈ bodies, moves sections b = true ∨ ∃ offset, place? sections b = .ok (some offset) ∧
      Bytes.slice file' offset b.stubSize = b.covering := by
  induction bodies generalizing file moved with
  | nil => simp
  | cons b bodies ih =>
    obtain ⟨hfirst, hothers⟩ := List.pairwise_cons.mp hapart
    unfold overwriteAll at h
    split at h
    · cases h
    · rename_i offset hplace
      obtain ⟨-, -, -, hfit, -⟩ := place?_eq_some hplace
      have hinb := hin b (by simp) offset hplace
      have hlen := length_overwrite hfit hinb
      have hinrest : ∀ x ∈ bodies, ∀ place, place? sections x = .ok (some place) →
          place + x.stubSize ≤ (overwrite file offset b).length := fun x hx => by
        rw [hlen]
        exact hin x (by simp [hx])
      intro x hx
      rcases List.mem_cons.mp hx with rfl | hx
      · refine Or.inr ⟨offset, hplace, ?_⟩
        have hkeep := (overwriteAll_frame h hinrest).2.2 offset x.stubSize fun y hy place hy' =>
          (hfirst y hy offset place hplace hy').symm
        rw [← length_covering hfit, Bytes.slice_eq_iff]
        intro i hi
        rw [length_covering hfit] at hi
        rw [hkeep _ (by omega) (by omega), getElem?_overwrite hfit hinb, if_pos (by omega),
          Nat.add_sub_cancel_left]
      · exact ih h hinrest hothers x hx
    · rename_i hplace
      intro x hx
      rcases List.mem_cons.mp hx with rfl | hx
      · exact Or.inl (by rw [moves, hplace])
      · exact ih h (fun y hy => hin y (by simp [hy])) hothers x hx

end stubs

/-! ### One behind the other -/

/-- A body that stands at a place of a blob, at a multiple of four. -/
structure StandsIn (blob : Bytes) (b : BodyPatch) (place : Nat) : Prop where
  /-- The place is a multiple of four. -/
  aligned : 4 ∣ place
  /-- The body ends inside the blob. -/
  inside : place + b.compiled.length ≤ blob.length
  /-- It stands there. -/
  slice_eq : Bytes.slice blob place b.compiled.length = b.compiled

/-- A body stands where it stood when more is put behind. -/
theorem StandsIn.append {blob : Bytes} {place : Nat} (h : StandsIn blob b place) (more : Bytes) :
    StandsIn (blob ++ more) b place where
  aligned := h.aligned
  inside := by
    have := h.inside
    rw [List.length_append]
    omega
  slice_eq := (Bytes.sameOn_append h.inside more).slice_eq.trans h.slice_eq

/-- Bodies that were put one behind the other, the last one first. -/
structure AreGathered (done : Bytes × List (BodyPatch × Nat)) : Prop where
  /-- Each stands at its place. -/
  stands : ∀ entry ∈ done.2, StandsIn done.1 entry.1 entry.2
  /-- Each ends in front of the ones after it. -/
  ascending : done.2.Pairwise fun y x => x.2 + x.1.compiled.length ≤ y.2

/-- Putting a body behind others leaves them where they stand. -/
theorem AreGathered.gatherNext {done : Bytes × List (BodyPatch × Nat)} (h : AreGathered done)
    (b : BodyPatch) : AreGathered (gatherNext done b) := by
  have hle := Bytes.le_alignNat done.1.length (by decide : 0 < 4)
  have hlen : (Bytes.padTo done.1 (Bytes.alignNat done.1.length 4)).length =
      Bytes.alignNat done.1.length 4 := by
    rw [Bytes.length_padTo]
    omega
  refine ⟨fun entry hentry => ?_, List.pairwise_cons.mpr ⟨fun x hx => ?_, h.ascending⟩⟩
  · rcases List.mem_cons.mp hentry with rfl | hentry
    · refine ⟨?_, ?_, Bytes.slice_append_right _ _⟩
      · rw [hlen]
        exact Bytes.dvd_alignNat _ (by decide)
      · simp [BodyPatch.gatherNext]
    · exact ((h.stands entry hentry).append (Bytes.zeros
        (Bytes.alignNat done.1.length 4 - done.1.length))).append b.compiled
  · have := (h.stands x hx).inside
    simp only [hlen]
    omega

/-- So does putting any number of bodies behind them. -/
theorem AreGathered.foldl {done : Bytes × List (BodyPatch × Nat)} (h : AreGathered done)
    (bodies : List BodyPatch) : AreGathered (bodies.foldl BodyPatch.gatherNext done) := by
  induction bodies generalizing done with
  | nil => exact h
  | cons b bodies ih => exact ih (h.gatherNext b)

/-- Each body is put behind others once. -/
theorem map_fst_foldl_gatherNext (bodies : List BodyPatch) (done : Bytes × List (BodyPatch × Nat)) :
    (bodies.foldl gatherNext done).2.reverse.map Prod.fst =
      done.2.reverse.map Prod.fst ++ bodies := by
  induction bodies generalizing done with
  | nil => simp
  | cons b bodies ih =>
    rw [List.foldl_cons, ih]
    simp [gatherNext]

/-- Gathered bodies are all there, in their order, each at a multiple of four behind the ones before
it. -/
theorem gather_spec (bodies : List BodyPatch) :
    (gather bodies).2.map Prod.fst = bodies ∧
      (∀ entry ∈ (gather bodies).2, StandsIn (gather bodies).1 entry.1 entry.2) ∧
      (gather bodies).2.Pairwise fun x y => x.2 + x.1.compiled.length ≤ y.2 := by
  have hall : AreGathered (bodies.foldl gatherNext ([], [])) :=
    AreGathered.foldl ⟨by simp, .nil⟩ bodies
  exact ⟨map_fst_foldl_gatherNext bodies ([], []),
    fun entry hentry => hall.stands entry (List.mem_reverse.mp hentry),
    List.pairwise_reverse.mpr hall.ascending⟩

/-- What was gathered was there. -/
theorem mem_of_mem_gather {bodies : List BodyPatch} {entry : BodyPatch × Nat}
    (h : entry ∈ (gather bodies).2) : entry.1 ∈ bodies := by
  rw [← (gather_spec bodies).1]
  exact List.mem_map_of_mem h

/-! ### Pointing rows -/

section pointing

variable {cell : Int → Except Fault Int} {base : Nat} {places : List (BodyPatch × Nat)}
  {file file' : Bytes}

/-- Pointing a row writes an address of four bytes into its cell. -/
theorem repoint_cons {entry : BodyPatch × Nat}
    (h : repoint cell base (entry :: places) file = .ok file')
    (hin : ∀ offset, cell ((entry.1.rid : Int) - 1) = .ok offset →
      0 ≤ offset ∧ offset + 4 ≤ file.length) :
    ∃ offset : Nat, cell ((entry.1.rid : Int) - 1) = .ok (offset : Int) ∧
      offset + 4 ≤ file.length ∧ base + entry.2 < 256 ^ 4 ∧
      repoint cell base places (Bytes.splice file offset (offset + 4)
        (Bytes.ofNumber 4 (base + entry.2))) = .ok file' := by
  obtain ⟨b, place⟩ := entry
  rw [repoint] at h
  obtain ⟨found, hfound, h⟩ := Sequence.bind_eq_ok.mp h
  obtain ⟨spelled, hspelled, h⟩ := Sequence.bind_eq_ok.mp h
  obtain ⟨-, hfits, rfl⟩ := Bytes.unsigned?_eq_some.mp (fitting_eq_ok.mp hspelled)
  obtain ⟨hpos, hle⟩ := hin found hfound
  obtain ⟨offset, rfl⟩ := Int.eq_ofNat_of_zero_le hpos
  rw [show (offset : Int) + 4 = ((offset + 4 : Nat) : Int) by omega,
    Bytes.replaceBetween_natCast] at h
  exact ⟨offset, hfound, by omega, by omega, h⟩

/-- Pointing rows changes their cells only. -/
theorem repoint_frame (h : repoint cell base places file = .ok file')
    (hin : ∀ entry ∈ places, ∀ offset, cell ((entry.1.rid : Int) - 1) = .ok offset →
      0 ≤ offset ∧ offset + 4 ≤ file.length) :
    file'.length = file.length ∧
      ∀ start count, (∀ entry ∈ places, ∀ offset : Nat,
        cell ((entry.1.rid : Int) - 1) = .ok (offset : Int) → Bytes.Apart offset 4 start count) →
        Bytes.SameOn file file' start count := by
  induction places generalizing file with
  | nil =>
    simp only [repoint, Except.ok.injEq] at h
    subst h
    exact ⟨rfl, fun _ _ _ => .refl _ _ _⟩
  | cons entry places ih =>
    obtain ⟨offset, hcell, hino, -, h⟩ := repoint_cons h (hin entry (by simp))
    have hlength : (Bytes.splice file offset (offset + 4)
        (Bytes.ofNumber 4 (base + entry.2))).length = file.length :=
      Bytes.length_splice (by omega) (by omega) (by rw [Bytes.length_ofNumber]; omega)
    obtain ⟨hlen, hsame⟩ := ih h fun x hx => by
      rw [hlength]
      exact hin x (by simp [hx])
    refine ⟨hlen.trans hlength, fun start count ha => ?_⟩
    refine Bytes.SameOn.trans ?_ (hsame start count fun x hx => ha x (by simp [hx]))
    refine Bytes.sameOn_splice (by omega) (by omega) (by rw [Bytes.length_ofNumber]; omega) ?_
    rw [Nat.add_sub_cancel_left]
    exact ha _ (by simp) offset hcell

/-- Each row is pointed to the address of its body when no other cell overlaps its own. -/
theorem repoint_put (h : repoint cell base places file = .ok file')
    (hin : ∀ entry ∈ places, ∀ offset, cell ((entry.1.rid : Int) - 1) = .ok offset →
      0 ≤ offset ∧ offset + 4 ≤ file.length)
    (hapart : places.Pairwise fun a b => ∀ offset offset' : Nat,
      cell ((a.1.rid : Int) - 1) = .ok (offset : Int) →
      cell ((b.1.rid : Int) - 1) = .ok (offset' : Int) → Bytes.Apart offset 4 offset' 4) :
    ∀ entry ∈ places, ∀ offset : Nat, cell ((entry.1.rid : Int) - 1) = .ok (offset : Int) →
      Bytes.field file' offset 4 = base + entry.2 := by
  induction places generalizing file with
  | nil => simp
  | cons entry places ih =>
    obtain ⟨hfirst, hothers⟩ := List.pairwise_cons.mp hapart
    obtain ⟨offset, hcell, hino, hfits, h⟩ := repoint_cons h (hin entry (by simp))
    have hlen := Bytes.length_ofNumber 4 (base + entry.2)
    have hlength : (Bytes.splice file offset (offset + 4)
        (Bytes.ofNumber 4 (base + entry.2))).length = file.length :=
      Bytes.length_splice (by omega) (by omega) (by omega)
    have hinrest : ∀ x ∈ places, ∀ place, cell ((x.1.rid : Int) - 1) = .ok place → 0 ≤ place ∧
        place + 4 ≤ (Bytes.splice file offset (offset + 4)
          (Bytes.ofNumber 4 (base + entry.2))).length := fun x hx => by
      rw [hlength]
      exact hin x (by simp [hx])
    intro x hx place hplace
    rcases List.mem_cons.mp hx with rfl | hx
    · rw [hcell, Except.ok.injEq] at hplace
      have hplace : offset = place := by omega
      subst hplace
      have hkeep := (repoint_frame h hinrest).2 offset 4 fun y hy o ho =>
        (hfirst y hy offset o hcell ho).symm
      have hread : Bytes.slice (Bytes.splice file offset (offset + 4)
          (Bytes.ofNumber 4 (base + x.2))) offset (Bytes.ofNumber 4 (base + x.2)).length =
          Bytes.ofNumber 4 (base + x.2) :=
        Bytes.slice_splice (by omega) (by omega) (by omega)
      rw [hlen] at hread
      rw [hkeep.field_eq, Bytes.field, hread, Bytes.number_ofNumber, Nat.mod_eq_of_lt hfits]
    · exact ih h hinrest hothers x hx place hplace

end pointing

/-! ### What is done in which case -/

section cases

variable {σ : Type} {t : σ} {cell : Int → Except Fault Int} {file new : Bytes}
  {h : ImageHeaders} {bodies : List BodyPatch}

/-- The way in which a file grows, and what is printed then. -/
inductive Grows (file : Bytes) (h : ImageHeaders) (sections : List Section) (data : Bytes) :
    Grown → List String → Prop
  /-- It gets another section where the headers have room for one. -/
  | appended {g : Grown} : Grown.canAddSection file h sections = true →
    Grown.appendSection file h sections data = .ok g → Grows file h sections data g []
  /-- Its last section gets longer where they have none. -/
  | extended {g : Grown} : Grown.canAddSection file h sections = false →
    Grown.extendLast file h sections data = .ok g → Grows file h sections data g [growingLine]

/-- Bodies that are moved go into a file that grew, and their rows are pointed there. -/
theorem relocate_cases (hr : (relocate cell file bodies t).result = .ok new) :
    ∃ h sections g, Section.readAll file = .ok (h, sections) ∧
      Grows file h sections (gather bodies).1 g (relocate cell file bodies t).lines ∧
      repoint cell g.rva (gather bodies).2 g.data = .ok new := by
  unfold relocate at hr ⊢
  cases hread : Section.readAll file with
  | error e => simp [bind, Action.bind, Action.ofExcept, hread] at hr
  | ok found =>
    obtain ⟨h, sections⟩ := found
    by_cases hadd : Grown.canAddSection file h sections = true
    · simp only [bind, Action.bind, Action.ofExcept, hread, hadd, if_true] at hr ⊢
      split at hr
      · cases hr
      rename_i g hgrow
      refine ⟨h, sections, g, rfl, ?_, hr⟩
      simp only [List.append_nil]
      exact .appended hadd hgrow
    · rw [Bool.not_eq_true] at hadd
      simp only [bind, Action.bind, Action.ofExcept, Action.say, hread, hadd, Bool.false_eq_true,
        if_false] at hr ⊢
      split at hr
      · cases hr
      rename_i g hgrow
      refine ⟨h, sections, g, rfl, ?_, hr⟩
      simp only [List.append_nil, List.nil_append]
      exact .extended hadd hgrow

/-- Bodies go over their stubs, and those that do not fit are moved. -/
theorem apply_cases (hread : Section.readAll file = .ok (h, sections))
    (hr : (apply cell file bodies t).result = .ok new) :
    ∃ covered moved, overwriteAll sections bodies file [] = .ok (covered, moved) ∧
      ((moved = [] ∧ new = covered ∧ (apply cell file bodies t).lines = []) ∨
        (moved ≠ [] ∧ (relocate cell covered moved t).result = .ok new ∧
          (apply cell file bodies t).lines = (relocate cell covered moved t).lines)) := by
  unfold apply at hr ⊢
  cases hover : overwriteAll sections bodies file [] with
  | error e => simp [bind, Action.bind, Action.ofExcept, hread, hover] at hr
  | ok done =>
    obtain ⟨covered, moved⟩ := done
    refine ⟨covered, moved, rfl, ?_⟩
    cases moved with
    | nil =>
      simp only [bind, Action.bind, Action.ofExcept, hread, hover, List.isEmpty_nil, if_true, pure,
        Action.pure, Except.ok.injEq, List.append_nil] at hr ⊢
      exact Or.inl ⟨trivial, hr.symm, trivial⟩
    | cons b moved =>
      simp only [bind, Action.bind, Action.ofExcept, Action.attempt, hread, hover,
        List.isEmpty_cons, Bool.false_eq_true, if_false] at hr ⊢
      refine Or.inr ⟨List.cons_ne_nil _ _, ?_⟩
      cases hmove : (relocate cell covered (b :: moved) t).result with
      | error e => simp [hmove, Action.fail] at hr
      | ok found =>
        simp only [hmove, pure, Action.pure, Except.ok.injEq, List.append_nil,
          List.nil_append] at hr ⊢
        exact ⟨hr, trivial⟩

end cases

end BodyPatch

end CilRestore
