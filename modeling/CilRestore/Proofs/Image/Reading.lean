import CilRestore.Image.Sections
import CilRestore.Proofs.Bytes.Edits
import CilRestore.Proofs.Sequence

/-!
# Reading headers

When headers and the table of sections can be read and what they are then, said of the bytes of the
file. So a file that was edited behind its headers is read as before, and one whose headers were
written anew is read as what was written.
-/

namespace CilRestore

namespace ImageHeaders

/-- The headers at a place of a file, whatever stands there. -/
def atStart (data : Bytes) (start : Nat) : ImageHeaders where
  start := start
  is64 := Bytes.field data (start + 4 + FileHeader.size) 2 = magic64
  file := Bytes.slice data (start + 4) FileHeader.size
  optional :=
    let is64 : Bool := Bytes.field data (start + 4 + FileHeader.size) 2 = magic64
    Bytes.slice data (start + 4 + FileHeader.size) (OptionalHeader.size is64)

/-- The bytes of a file that make it one with headers at a place. -/
structure StandAt (data : Bytes) (start : Nat) : Prop where
  /-- The old header is there. -/
  old : oldHeaderSize ≤ data.length
  /-- It has its signature. -/
  oldSignature_eq : Bytes.field data 0 2 = oldSignature
  /-- It names the place. -/
  start_eq : Bytes.field data 60 4 = start
  /-- The new headers are there. -/
  inside : start + 4 + FileHeader.size + OptionalHeader.size (atStart data start).is64 ≤ data.length
  /-- They have their signature. -/
  signature_eq : Bytes.field data start 4 = signature

/-- Headers are read exactly if some stand in the file. -/
theorem read_eq_ok {data : Bytes} {h : ImageHeaders} :
    read data = .ok h ↔ StandAt data h.start ∧ h = atStart data h.start := by
  have hsize : OptionalHeader.size false ≤ OptionalHeader.size true := by decide
  constructor
  · intro hread
    unfold read at hread
    simp only at hread
    split at hread
    · cases hread
    split at hread
    · cases hread
    split at hread
    · cases hread
    split at hread
    · cases hread
    rename_i h1 h2 h3 h4
    simp only [pure, Except.pure, Except.ok.injEq] at hread
    subst hread
    simp only [ne_eq, Bool.or_eq_true, decide_eq_true_eq, not_or, Decidable.not_not,
      Bool.and_eq_true, not_and] at h2 h3 h4
    refine ⟨⟨by omega, h2.1, rfl, ?_, h4⟩, rfl⟩
    simp only [atStart]
    by_cases hm : Bytes.field data (Bytes.field data 60 4 + 4 + FileHeader.size) 2 = magic64
    · rw [decide_eq_true hm]
      have := h3 hm
      omega
    · rw [decide_eq_false hm]
      omega
  · rintro ⟨hs, he⟩
    obtain ⟨h1, h2, h3, h4, h5⟩ := hs
    unfold read
    simp only [h3]
    simp only [atStart] at h4
    rw [if_neg (by omega), if_neg, if_neg, if_neg (by simpa using h5), he]
    · rfl
    · simp only [Bool.and_eq_true, decide_eq_true_eq, not_and]
      intro hm
      rw [decide_eq_true hm] at h4
      omega
    · simp only [ne_eq, Bool.or_eq_true, decide_eq_true_eq, not_or, Decidable.not_not]
      refine ⟨h2, ?_⟩
      cases hm : decide (Bytes.field data (h.start + 4 + FileHeader.size) 2 = magic64) with
      | true =>
        rw [hm] at h4
        omega
      | false =>
        rw [hm] at h4
        omega

/-- Headers are found where they were when what tells where they are did not change. -/
theorem StandAt.of_sameOn {data other : Bytes} {start : Nat} (h : StandAt data start)
    (hlen : data.length ≤ other.length) (hmagic : Bytes.SameOn data other 0 2)
    (hplace : Bytes.SameOn data other 60 4) (hsig : Bytes.SameOn data other start 4)
    (hform : Bytes.SameOn data other (start + 4 + FileHeader.size) 2) : StandAt other start where
  old := Nat.le_trans h.old hlen
  oldSignature_eq := hmagic.field_eq.trans h.oldSignature_eq
  start_eq := hplace.field_eq.trans h.start_eq
  inside := by
    have hi := h.inside
    simp only [atStart] at hi ⊢
    rw [hform.field_eq]
    omega
  signature_eq := hsig.field_eq.trans h.signature_eq

end ImageHeaders

namespace Section

/-- The section headers in a file, from an offset on. -/
def listFrom (data : Bytes) (count start : Nat) : List Section :=
  (List.range count).map fun k =>
    ⟨start + k * headerSize, Bytes.slice data (start + k * headerSize) headerSize⟩

/-- Headers of sections are read exactly if all of them are in the file. -/
theorem readFrom_eq_ok {data : Bytes} {count start : Nat} {sections : List Section} :
    readFrom data count start = .ok sections ↔
      (count = 0 ∨ start + count * headerSize ≤ data.length) ∧
        sections = listFrom data count start := by
  induction count generalizing start sections with
  | zero => simp [readFrom, listFrom, eq_comm]
  | succ count ih =>
    have hlist : listFrom data (count + 1) start =
        ⟨start, Bytes.slice data start headerSize⟩ :: listFrom data count (start + headerSize) := by
      rw [listFrom, List.range_succ_eq_map, List.map_cons, List.map_map, listFrom]
      simp only [Nat.zero_mul, Nat.add_zero, List.cons.injEq, true_and]
      apply List.map_congr_left
      intro k _
      simp only [Function.comp_apply, Nat.succ_eq_add_one, Nat.add_mul, Nat.one_mul]
      rw [show start + (k * headerSize + headerSize) = start + headerSize + k * headerSize by omega]
    rw [readFrom]
    by_cases hin : start + headerSize ≤ data.length
    · rw [if_neg (by rw [Bytes.length_slice hin]; omega), Sequence.map_eq_ok]
      constructor
      · rintro ⟨rest, hrest, rfl⟩
        obtain ⟨hr, rfl⟩ := ih.mp hrest
        refine ⟨Or.inr ?_, hlist.symm⟩
        rcases hr with rfl | hr
        · omega
        · rw [Nat.add_mul, Nat.one_mul]
          omega
      · rintro ⟨hr, rfl⟩
        refine ⟨_, ih.mpr ⟨?_, rfl⟩, hlist.symm⟩
        rw [Nat.add_mul, Nat.one_mul] at hr
        omega
    · have hshort : (Bytes.slice data start headerSize).length < headerSize := by
        have hpos : 0 < headerSize := by decide
        rw [Bytes.slice, List.length_take, List.length_drop]
        omega
      rw [if_pos hshort]
      simp only [reduceCtorEq, false_iff, not_and]
      intro hr
      rw [false_or, Nat.add_mul, Nat.one_mul] at hr
      omega

/-- What a file is read as: the headers, and the table of sections behind them. -/
theorem readAll_eq_ok {data : Bytes} {h : ImageHeaders} {sections : List Section} :
    readAll data = .ok (h, sections) ↔
      ImageHeaders.StandAt data h.start ∧ h = ImageHeaders.atStart data h.start ∧
        (h.sectionCount = 0 ∨ h.tableStart + h.sectionCount * headerSize ≤ data.length) ∧
        sections = listFrom data h.sectionCount h.tableStart := by
  unfold readAll readTable
  rw [Sequence.bind_eq_ok]
  constructor
  · rintro ⟨found, hfound, hread⟩
    obtain ⟨list, hlist, hread⟩ := Sequence.bind_eq_ok.mp hread
    simp only [pure, Except.pure, Except.ok.injEq, Prod.mk.injEq] at hread
    obtain ⟨rfl, rfl⟩ := hread
    obtain ⟨h1, h2⟩ := ImageHeaders.read_eq_ok.mp hfound
    exact ⟨h1, h2, readFrom_eq_ok.mp hlist⟩
  · rintro ⟨h1, h2, h3⟩
    exact ⟨h, ImageHeaders.read_eq_ok.mpr ⟨h1, h2⟩,
      Sequence.bind_eq_ok.mpr ⟨sections, readFrom_eq_ok.mpr h3, rfl⟩⟩

end Section

end CilRestore
