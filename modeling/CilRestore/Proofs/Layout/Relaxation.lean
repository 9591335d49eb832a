import CilRestore.Opcode.Table
import CilRestore.Proofs.Layout.Placement

/-!
# Widening branches

A short branch is widened in place: it keeps its target and becomes the long form of its opcode.
Each pass that widens any leaves fewer short branches, so the passes come to an end (`Relaxes`),
after at most one more than there were short branches (`exists_relaxes`), and all short branches
that are left then reach their targets.
-/

namespace CilRestore

/-- The long form of a short branch is a defined branch. -/
theorem Opcode.widened_of_isShortBranch :
    ∀ op ∈ all, op.isShortBranch → op.widened ∈ all ∧ op.widened.operand = .branch := by
  decide +kernel

namespace Pool

/-- A pool is another one with some short branches of an order widened. -/
structure IsWidening (order : List Nat) (p q : Pool) : Prop where
  /-- They have the same identities. -/
  size_eq : q.size = p.size
  /-- They have the same operands. -/
  operand : ∀ id, (q.fetch id).operand = (p.fetch id).operand
  /-- An opcode is kept, or it is the long form of a short branch of the order. -/
  opcode : ∀ id, (q.fetch id).opcode = (p.fetch id).opcode ∨ id ∈ order ∧
    (p.fetch id).opcode.isShortBranch ∧ (q.fetch id).opcode = (p.fetch id).opcode.widened

/-- Every instruction of an order has a defined opcode. -/
def IsDefined (p : Pool) (order : List Nat) : Prop :=
  ∀ id ∈ order, (p.fetch id).opcode ∈ Opcode.all

variable {p q r : Pool} {order : List Nat}

namespace IsWidening

/-- The same code is wider by nothing. -/
theorem of_sameCode (h : SameCode p q) : IsWidening order p q :=
  ⟨h.size_eq, h.operand, fun id => Or.inl (h.opcode id)⟩

/-- A branch that was widened is no short one, so widening further keeps it. -/
theorem trans (h : IsWidening order p q) (h' : IsWidening order q r) (hd : p.IsDefined order) :
    IsWidening order p r := by
  refine ⟨h'.size_eq.trans h.size_eq, fun id => (h'.operand id).trans (h.operand id), ?_⟩
  intro id
  rcases h.opcode id with he | ⟨hid, hs, he⟩
  · rcases h'.opcode id with he' | ⟨hid, hs', he'⟩
    · exact Or.inl (he'.trans he)
    · exact Or.inr ⟨hid, he ▸ hs', he ▸ he'⟩
  · rcases h'.opcode id with he' | ⟨_, hs', _⟩
    · exact Or.inr ⟨hid, hs, he'.trans he⟩
    · rw [he, Opcode.isShortBranch, (Opcode.widened_of_isShortBranch _ (hd id hid) hs).2] at hs'
      simp at hs'

/-- Widening leads to opcodes that are defined. -/
theorem isDefined (h : IsWidening order p q) (hd : p.IsDefined order) : q.IsDefined order := by
  intro id hid
  rcases h.opcode id with he | ⟨_, hs, he⟩
  · rw [he]
    exact hd id hid
  · rw [he]
    exact (Opcode.widened_of_isShortBranch _ (hd id hid) hs).1

/-- Widening makes no branch of what was none, and no switch either. -/
theorem isBranch_isSwitch (h : IsWidening order p q) (hd : p.IsDefined order) (id : Nat) :
    (q.fetch id).opcode.isBranch = (p.fetch id).opcode.isBranch ∧
      (q.fetch id).opcode.isSwitch = (p.fetch id).opcode.isSwitch := by
  rcases h.opcode id with he | ⟨hid, hs, he⟩
  · rw [he]
    exact ⟨rfl, rfl⟩
  · have hlong := (Opcode.widened_of_isShortBranch _ (hd id hid) hs).2
    have hshort : (p.fetch id).opcode.operand = .shortBranch := by
      simpa [Opcode.isShortBranch] using hs
    rw [he, Opcode.isBranch, Opcode.isBranch, Opcode.isSwitch, Opcode.isSwitch, hlong, hshort]
    exact ⟨rfl, rfl⟩

/-- Widening changes no target. -/
theorem targets (h : IsWidening order p q) (hd : p.IsDefined order) (id : Nat) :
    (q.fetch id).targets = (p.fetch id).targets := by
  obtain ⟨hbranch, hswitch⟩ := h.isBranch_isSwitch hd id
  rw [Instruction.targets, hbranch, hswitch, h.operand, ← Instruction.targets]

end IsWidening

/-- The branches of an order go to its own instructions. -/
structure IsClosed (p : Pool) (order : List Nat) : Prop where
  /-- The instructions are of the pool. -/
  inside : ∀ id ∈ order, id < p.size
  /-- Opcodes are defined. -/
  defined : p.IsDefined order
  /-- A branch has a target. -/
  aims : ∀ id ∈ order, (p.fetch id).isDangling = false
  /-- A switch has a table. -/
  tabled : ∀ id ∈ order, (p.fetch id).lacksTable = false
  /-- Targets are of the order. -/
  targets : ∀ id ∈ order, ∀ target ∈ (p.fetch id).targets, target ∈ order

/-- Widening keeps an order closed. -/
theorem IsClosed.of_isWidening (h : IsClosed p order) (hw : IsWidening order p q) :
    IsClosed q order where
  inside id hid := by
    rw [hw.size_eq]
    exact h.inside id hid
  defined := hw.isDefined h.defined
  aims id hid := by
    rw [Instruction.isDangling, (hw.isBranch_isSwitch h.defined id).1, hw.operand,
      ← Instruction.isDangling]
    exact h.aims id hid
  tabled id hid := by
    rw [Instruction.lacksTable, (hw.isBranch_isSwitch h.defined id).2, hw.operand,
      ← Instruction.lacksTable]
    exact h.tabled id hid
  targets id hid target ht := by
    rw [hw.targets h.defined] at ht
    exact h.targets id hid target ht

/-! ### One pass -/

/-- Whether a branch is too short depends on the branch and on the offsets. -/
theorem isFar_congr {id : Nat} (h : q.fetch id = p.fetch id)
    (ho : ∀ other, (q.fetch other).offset = (p.fetch other).offset) : q.isFar id = p.isFar id := by
  simp only [isFar, h, ho]

/-- Only a short branch is ever too short. -/
theorem isShortBranch_of_isFar {id : Nat} (h : p.isFar id) :
    (p.fetch id).opcode.isShortBranch := by
  simp only [isFar, Bool.and_eq_true] at h
  exact h.1

/-- One pass widens the far branches of an order, as they are before the pass. -/
theorem fetch_widenFar (hn : order.Nodup) (hb : ∀ id ∈ order, id < p.size) (id : Nat) :
    (p.widenFar order).fetch id =
      if id ∈ order ∧ p.isFar id then
        { p.fetch id with opcode := (p.fetch id).opcode.widened }
      else p.fetch id := by
  induction order generalizing p with
  | nil => simp [widenFar]
  | cons first rest ih =>
    obtain ⟨hfirst, hn⟩ := List.nodup_cons.mp hn
    have hlt := hb first (by simp)
    rw [widenFar, List.foldl_cons, ← widenFar]
    by_cases hfar : p.isFar first
    · rw [if_pos hfar]
      have hoffset : ∀ other, ((p.put first { p.fetch first with
          opcode := (p.fetch first).opcode.widened }).fetch other).offset =
          (p.fetch other).offset := by
        intro other
        rw [fetch_put]
        split
        · rename_i h
          rw [h.1]
        · rfl
      rw [ih hn (fun x hx => by rw [size_put]; exact hb x (by simp [hx]))]
      by_cases he : id = first
      · subst he
        rw [if_neg (fun hc => hfirst hc.1), fetch_put_self hlt, if_pos ⟨by simp, hfar⟩]
      · rw [isFar_congr (fetch_put_of_ne he _) hoffset, fetch_put_of_ne he]
        simp [he]
    · rw [if_neg hfar, ih hn (fun x hx => hb x (by simp [hx]))]
      by_cases he : id = first
      · subst he
        rw [if_neg (fun hc => hfar hc.2), if_neg (fun hc => hfar hc.2)]
      · simp [he]

theorem size_widenFar (p : Pool) (order : List Nat) : (p.widenFar order).size = p.size := by
  induction order generalizing p with
  | nil => rfl
  | cons first rest ih =>
    rw [widenFar, List.foldl_cons, ← widenFar, ih]
    split
    · exact size_put _ _ _
    · rfl

/-- A pass widens branches and does nothing else. -/
theorem widenFar_isWidening (hn : order.Nodup) (hb : ∀ id ∈ order, id < p.size) :
    IsWidening order p (p.widenFar order) := by
  refine ⟨size_widenFar p order, ?_, ?_⟩
  · intro id
    rw [fetch_widenFar hn hb]
    split <;> rfl
  · intro id
    rw [fetch_widenFar hn hb]
    split
    · rename_i h
      exact Or.inr ⟨h.1, isShortBranch_of_isFar h.2, rfl⟩
    · exact Or.inl rfl

/-- A pass that widens any branch leaves fewer short ones. -/
theorem shortBranches_widenFar_lt (hn : order.Nodup) (hb : ∀ id ∈ order, id < p.size)
    (hd : p.IsDefined order) (hfar : order.any p.isFar) :
    (p.widenFar order).shortBranches order < p.shortBranches order := by
  have hle : ∀ id ∈ order, ((p.widenFar order).fetch id).opcode.isShortBranch →
      (p.fetch id).opcode.isShortBranch ∧ ¬ p.isFar id := by
    intro id hid hs
    rw [fetch_widenFar hn hb] at hs
    split at hs
    · rename_i h
      have hshort := isShortBranch_of_isFar h.2
      simp [Opcode.isShortBranch, (Opcode.widened_of_isShortBranch _ (hd id hid) hshort).2] at hs
    · rename_i h
      exact ⟨hs, fun hc => h ⟨hid, hc⟩⟩
  obtain ⟨id, hid, hf⟩ := List.any_eq_true.mp hfar
  obtain ⟨before, after, rfl⟩ := List.append_of_mem hid
  simp only [shortBranches, List.countP_append, List.countP_cons]
  have hself : ((p.widenFar (before ++ id :: after)).fetch id).opcode.isShortBranch = false := by
    exact Bool.eq_false_iff.mpr fun hc => (hle id hid hc).2 hf
  have hb' := List.countP_mono_left (l := before) fun x hx hs => (hle x (by simp [hx]) hs).1
  have ha' := List.countP_mono_left (l := after) fun x hx hs => (hle x (by simp [hx]) hs).1
  rw [hself, isShortBranch_of_isFar hf]
  simp only [Bool.false_eq_true, if_false, if_true]
  omega

/-! ### All passes -/

/-- Passes over an order, counted: each places it and widens what is far then, and the last one
finds nothing far. -/
inductive Relaxes (order : List Nat) : Nat → Pool → Pool → Prop
  /-- The last pass only places the order. -/
  | last {p : Pool} (h : ∀ id ∈ order, (p.assign order).1.isFar id = false) :
      Relaxes order 1 p (p.assign order).1
  /-- After a pass that widened anything there is another one. -/
  | again {p q : Pool} {passes : Nat} (h : ∃ id ∈ order, (p.assign order).1.isFar id)
      (hrest : Relaxes order passes ((p.assign order).1.widenFar order) q) :
      Relaxes order (passes + 1) p q

/-- Settling ends by itself: it takes at most one pass more than there are short branches. -/
theorem exists_relaxes {fuel : Nat} (hn : order.Nodup) (hb : ∀ id ∈ order, id < p.size)
    (hd : p.IsDefined order) (hf : p.shortBranches order ≤ fuel) :
    ∃ passes ≤ p.shortBranches order + 1, Relaxes order passes p (p.settle fuel order).1 := by
  induction fuel generalizing p with
  | zero =>
    refine ⟨1, by omega, .last fun id hid => ?_⟩
    have hs := List.countP_eq_zero.mp (Nat.le_zero.mp hf) id hid
    refine Bool.eq_false_iff.mpr fun hc => hs ?_
    have hshort := isShortBranch_of_isFar hc
    rwa [(assign_sameCode p order).opcode] at hshort
  | succ fuel ih =>
    have hsame := assign_sameCode p order
    rw [settle]
    simp only
    split
    · rename_i hfar
      have hb' : ∀ id ∈ order, id < (p.assign order).1.size := by
        intro id hid
        rw [hsame.size_eq]
        exact hb id hid
      have hd' := (IsWidening.of_sameCode hsame).isDefined hd
      have hw := widenFar_isWidening hn hb'
      have hlt := shortBranches_widenFar_lt hn hb' hd' hfar
      rw [hsame.shortBranches] at hlt
      obtain ⟨passes, hle, hrest⟩ := ih (fun id hid => by rw [hw.size_eq]; exact hb' id hid)
        (hw.isDefined hd') (by omega)
      exact ⟨passes + 1, by omega, .again (List.any_eq_true.mp hfar) hrest⟩
    · rename_i hfar
      exact ⟨1, by omega, .last fun id hid =>
        Bool.eq_false_iff.mpr fun hc => hfar (List.any_eq_true.mpr ⟨id, hid, hc⟩)⟩

namespace Relaxes

variable {passes : Nat}

/-- All short branches that are left in the end reach. -/
theorem isFar (h : Relaxes order passes p q) : ∀ id ∈ order, q.isFar id = false := by
  induction h with
  | last h => exact h
  | again _ _ ih => exact ih

/-- In the end the order is laid out, with some short branches widened. -/
theorem spec (h : Relaxes order passes p q) (hn : order.Nodup) (hb : ∀ id ∈ order, id < p.size)
    (hd : p.IsDefined order) : IsLaidOut q order ∧ IsWidening order p q := by
  induction h with
  | last _ => exact ⟨assign_isLaidOut hn hb, .of_sameCode (assign_sameCode _ order)⟩
  | @again p q passes _ _ ih =>
    have hsame := assign_sameCode p order
    have hb' : ∀ id ∈ order, id < (p.assign order).1.size := by
      intro id hid
      rw [hsame.size_eq]
      exact hb id hid
    have hw := (IsWidening.of_sameCode hsame).trans (widenFar_isWidening hn hb') hd
    obtain ⟨hl, hwide⟩ := ih (fun id hid => by rw [hw.size_eq]; exact hb id hid) (hw.isDefined hd)
    exact ⟨hl, hw.trans hwide hd⟩

end Relaxes

/-- What is laid out and has no far branch is settled. -/
theorem IsLaidOut.settle_eq (h : IsLaidOut p order) (hn : order.Nodup)
    (hb : ∀ id ∈ order, id < p.size) (hf : ∀ id ∈ order, p.isFar id = false) (fuel : Nat) :
    p.settle fuel order = (p, p.startIn order order.length) := by
  have hassign : p.assign order = (p, p.startIn order order.length) :=
    Prod.ext (h.assign_eq hn hb) (assign_snd p order)
  cases fuel with
  | zero => rw [settle, hassign]
  | succ fuel =>
    rw [settle, hassign]
    simp only
    rw [if_neg]
    intro hc
    obtain ⟨id, hid, hfar⟩ := List.any_eq_true.mp hc
    rw [hf id hid] at hfar
    cases hfar

end Pool

end CilRestore
