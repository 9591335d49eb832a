import Mathlib.Data.Set.Basic
import CilRestore.Proofs.Layout.Carrying

/-!
# The least widening

Laying an order out widens no branch without need: whatever else short branches might be widened so
that those left short reach, it includes the ones that are widened here. The argument is that
widening only moves instructions apart. A displacement never shrinks, so a branch that reaches in a
wider layout reaches in a narrower one too, and no pass widens a branch that some sufficient choice
leaves short (`IsWidening.widenFar`).
-/

namespace CilRestore

/-- The long form of a short branch takes more bytes. -/
theorem Opcode.size_le_widened : ∀ op ∈ all, op.isShortBranch →
    op.size + op.operand.size ≤ op.widened.size + op.widened.operand.size := by
  decide +kernel

namespace Pool

/-- Every short branch of an order reaches its target. -/
def IsInReach (p : Pool) (order : List Nat) : Prop :=
  ∀ id ∈ order, (p.fetch id).opcode.isShortBranch → ∀ target ∈ (p.fetch id).targets,
    -128 ≤ p.displacement (p.fetch id) target ∧ p.displacement (p.fetch id) target ≤ 127

/-- The instructions whose opcode is another one in a second pool. -/
def widenedIn (p q : Pool) : Set Nat := {id | (q.fetch id).opcode ≠ (p.fetch id).opcode}

variable {p q r : Pool} {order : List Nat}

/-- A branch is far when it is short and has a target out of reach. -/
theorem isFar_eq_false_iff {id : Nat} : p.isFar id = false ↔
    ((p.fetch id).opcode.isShortBranch → ∀ target ∈ (p.fetch id).targets,
      -128 ≤ p.displacement (p.fetch id) target ∧ p.displacement (p.fetch id) target ≤ 127) := by
  by_cases hs : (p.fetch id).opcode.isShortBranch
  · have hb : (p.fetch id).opcode.isBranch := by
      rw [Opcode.isShortBranch] at hs
      rw [Opcode.isBranch, hs, Bool.true_or]
    rw [isFar, hs, Instruction.targets, if_pos hb]
    cases (p.fetch id).operand.target? with
    | none => simp
    | some target => simp [reaches, displacement]
  · simp [isFar, hs]

/-- Everything is in reach when no short branch is too far from its target. -/
theorem isInReach_iff : p.IsInReach order ↔ ∀ id ∈ order, p.isFar id = false := by
  simp only [IsInReach, isFar_eq_false_iff]

/-! ### Wider layouts -/

/-- No instruction takes fewer bytes in a wider layout. -/
theorem IsWidening.sizeOf_le (hw : IsWidening order p q) (hc : p.IsClosed order) {id : Nat}
    (hid : id ∈ order) : p.sizeOf (p.fetch id) ≤ q.sizeOf (q.fetch id) := by
  rw [sizeOf_of_table (hc.tabled id hid),
    sizeOf_of_table ((hc.of_isWidening hw).tabled id hid), Instruction.size, Instruction.size,
    (hw.isBranch_isSwitch hc.defined id).2, hw.operand]
  rcases hw.opcode id with he | ⟨_, hs, he⟩
  · rw [he]
  · have hshort : (p.fetch id).opcode.operand = .shortBranch := by
      simpa [Opcode.isShortBranch] using hs
    have hswitch : ¬ (p.fetch id).opcode.isSwitch := by
      rw [Opcode.isSwitch, hshort]
      decide
    rw [if_neg hswitch, if_neg hswitch, he]
    exact Opcode.size_le_widened _ (hc.defined id hid) hs

/-- Two places are at least as far apart in a wider layout. -/
theorem IsWidening.startIn_le_add (hw : IsWidening order p q) (hc : p.IsClosed order) {i j : Nat}
    (hij : i ≤ j) (hj : j ≤ order.length) :
    p.startIn order j + q.startIn order i ≤ q.startIn order j + p.startIn order i := by
  induction j, hij using Nat.le_induction with
  | base => omega
  | succ j hij ih =>
    have hplace := List.getElem?_eq_getElem (show j < order.length by omega)
    have hsize := hw.sizeOf_le hc (List.mem_of_getElem? hplace)
    have hbefore := ih (by omega)
    rw [startIn_succ hplace, startIn_succ hplace]
    omega

/-- A branch that reaches in a wider layout reaches in a narrower one. -/
theorem IsWidening.reaches (hw : IsWidening order p r) (hc : p.IsClosed order)
    (hlp : p.IsLaidOut order) (hlr : r.IsLaidOut order) {id target : Nat} (hid : id ∈ order)
    (ht : target ∈ order)
    (hr : -128 ≤ r.displacement (r.fetch id) target ∧ r.displacement (r.fetch id) target ≤ 127) :
    -128 ≤ p.displacement (p.fetch id) target ∧ p.displacement (p.fetch id) target ≤ 127 := by
  obtain ⟨place, hplace⟩ := List.mem_iff_getElem?.mp hid
  obtain ⟨other, hother⟩ := List.mem_iff_getElem?.mp ht
  have hlt := (List.getElem?_eq_some_iff.mp hplace).1
  have hlt' := (List.getElem?_eq_some_iff.mp hother).1
  rw [hlr.displacement_eq hplace hother ((hc.of_isWidening hw).tabled id hid)] at hr
  rw [hlp.displacement_eq hplace hother (hc.tabled id hid)]
  -- A branch forward has a displacement from 0 on, a branch backward one below 0.
  rcases Nat.lt_or_ge place other with hforward | hbackward
  · have hapart := hw.startIn_le_add hc (show place + 1 ≤ other by omega) (Nat.le_of_lt hlt')
    have hle := startIn_le (p := p) order (show place + 1 ≤ other by omega)
    omega
  · have hapart := hw.startIn_le_add hc (show other ≤ place + 1 by omega) hlt
    have hle := startIn_le (p := p) order (show other ≤ place + 1 by omega)
    omega

/-! ### No pass widens too much -/

/-- Where the instructions are does not matter for what else may be widened. -/
theorem IsWidening.of_placed (hs : SameCode p q) (hw : IsWidening order p r) :
    IsWidening order q r := by
  refine ⟨hw.size_eq.trans hs.size_eq.symm, fun id => (hw.operand id).trans (hs.operand id).symm,
    fun id => ?_⟩
  rw [hs.opcode]
  exact hw.opcode id

/-- What a pass widens is also widened in every wider layout in which all short branches reach. -/
theorem IsWidening.widenFar (hw : IsWidening order p r) (hn : order.Nodup) (hc : p.IsClosed order)
    (hlp : p.IsLaidOut order) (hlr : r.IsLaidOut order) (hr : r.IsInReach order) :
    IsWidening order (p.widenFar order) r := by
  have hfetch := fetch_widenFar hn hc.inside
  refine ⟨?_, fun id => ?_, fun id => ?_⟩
  · rw [size_widenFar]
    exact hw.size_eq
  · rw [hw.operand, hfetch]
    split <;> rfl
  · rw [hfetch]
    split
    · rename_i hfar
      obtain ⟨hid, hfar⟩ := hfar
      rcases hw.opcode id with he | ⟨_, _, he⟩
      · -- Left short in the wider layout, the branch reaches there, and so it does here.
        refine absurd hfar (Bool.eq_false_iff.mp (isFar_eq_false_iff.mpr fun hs target ht => ?_))
        have hreach := hr id hid (he ▸ hs) target (by rwa [hw.targets hc.defined])
        exact hw.reaches hc hlp hlr hid (hc.targets id hid target ht) hreach
      · exact Or.inl he
    · exact hw.opcode id

/-- What all passes widen is also widened in every wider layout in which all short branches
reach. -/
theorem Relaxes.isWidening_of_isInReach {passes : Nat} (h : Relaxes order passes p q)
    (hn : order.Nodup) (hc : p.IsClosed order) (hw : IsWidening order p r)
    (hlr : r.IsLaidOut order) (hr : r.IsInReach order) : IsWidening order q r := by
  induction h with
  | last _ => exact hw.of_placed (assign_sameCode _ order)
  | @again p q passes _ _ ih =>
    have hsame := assign_sameCode p order
    have hc' := hc.of_isWidening (.of_sameCode hsame)
    have hplaced := assign_isLaidOut hn hc.inside
    exact ih (hc'.of_isWidening (widenFar_isWidening hn hc'.inside))
      ((hw.of_placed hsame).widenFar hn hc' hplaced hlr hr)

/-- What is widened stays widened when more is. -/
theorem IsWidening.widenedIn_subset (h : IsWidening order p q) (h' : IsWidening order q r)
    (hd : p.IsDefined order) : p.widenedIn q ⊆ p.widenedIn r := by
  intro id hid
  rcases h.opcode id with he | ⟨hm, hs, he⟩
  · exact absurd he hid
  · rcases h'.opcode id with he' | ⟨_, hs', _⟩
    · exact fun hsame => hid (he'.symm.trans hsame)
    · rw [he, Opcode.isShortBranch, (Opcode.widened_of_isShortBranch _ (hd id hm) hs).2] at hs'
      cases hs'

end Pool

/-- Laying out distinct instructions that go to one another takes at most one pass more than there
are short branches. It leaves them one behind the other, with all short branches in reach, having
changed nothing but where they are and some short branches to their long forms. No choice of short
branches to widen that leaves the others in reach has fewer: it includes those widened here. Laying
out the result changes nothing. -/
theorem layOut_widens_least {p : Pool} {order : List Nat} (hn : order.Nodup)
    (hc : p.IsClosed order) (clauses : List Clause) :
    ∃ layout q lines passes, layOut order clauses p = ⟨.ok layout, q, lines⟩ ∧
      passes ≤ p.shortBranches order + 1 ∧ Pool.Relaxes order passes p q ∧
      q.IsLaidOut order ∧ layout.codeSize = q.startIn order order.length ∧ q.IsInReach order ∧
      Pool.IsWidening order p q ∧
      (∀ r, Pool.IsWidening order p r → r.IsLaidOut order → r.IsInReach order →
        p.widenedIn q ⊆ p.widenedIn r) ∧
      ∀ clauses', ∃ layout' lines', layOut order clauses' q = ⟨.ok layout', q, lines'⟩ := by
  obtain ⟨layout, q, lines, passes, hout, hle, hrelaxes, hsize⟩ := hc.exists_layOut hn clauses
  obtain ⟨hlaid, hwide⟩ := hrelaxes.spec hn hc.inside hc.defined
  have hq := hc.of_isWidening hwide
  refine ⟨layout, q, lines, passes, hout, hle, hrelaxes, hlaid, hsize,
    Pool.isInReach_iff.mpr hrelaxes.isFar, hwide, fun r hw hlr hr => ?_, fun clauses' => ?_⟩
  · exact hwide.widenedIn_subset (hrelaxes.isWidening_of_isInReach hn hc hw hlr hr) hc.defined
  · have hagain := hq.layOut_eq clauses'
    rw [hlaid.settle_eq hn hq.inside hrelaxes.isFar] at hagain
    exact ⟨_, _, hagain⟩

/-- Three short branches, two of them over a switch. The second one is out of reach; once it is
widened the first one is too, and the third one reaches as it is. -/
theorem layOut_widens_least_of_cascade :
    let short : Opcode := ⟨0x2B, "br.s", .shortBranch, some 0, some 0, .branch⟩
    let long : Opcode := ⟨0x38, "br", .branch, some 0, some 0, .branch⟩
    let p : Pool := #[⟨short, .target 3, -1, -1⟩, ⟨short, .target 5, -1, -1⟩,
      ⟨⟨0x45, "switch", .switch, some 1, some 0, .condBranch⟩, .targets (List.replicate 30 3),
        -1, -1⟩,
      ⟨.nop, .nothing, -1, -1⟩, ⟨short, .target 5, -1, -1⟩,
      ⟨⟨0x2A, "ret", .nothing, some 0, some 0, .returns⟩, .nothing, -1, -1⟩]
    let order := List.range 6
    order.Nodup ∧ p.IsClosed order ∧ p.shortBranches order = 3 ∧
      ∃ layout q lines passes, layOut order [] p = ⟨.ok layout, q, lines⟩ ∧ passes ≤ 4 ∧
        Pool.Relaxes order passes p q ∧ layout.codeSize = 139 ∧
        order.map (fun id => (q.fetch id).opcode) =
          [long, long, (p.fetch 2).opcode, .nop, short, (p.fetch 5).opcode] ∧
        ∀ r, Pool.IsWidening order p r → r.IsLaidOut order → r.IsInReach order →
          p.widenedIn q ⊆ p.widenedIn r := by
  intro short long p order
  have hn : order.Nodup := List.nodup_range
  have hc : p.IsClosed order :=
    ⟨by decide, by unfold Pool.IsDefined; decide +kernel, by decide, by decide, by decide +kernel⟩
  have hcount : p.shortBranches order = 3 := by decide
  obtain ⟨layout, q, lines, passes, hout, hle, hrelaxes, -, -, -, -, hleast, -⟩ :=
    layOut_widens_least hn hc []
  have hrun : (layOut order [] p).result.toOption = some ⟨139, [], []⟩ ∧
      order.map (fun id => ((layOut order [] p).state.fetch id).opcode) =
        [long, long, (p.fetch 2).opcode, .nop, short, (p.fetch 5).opcode] := by
    decide +kernel
  rw [hout] at hrun
  simp only [Except.toOption, Option.some.injEq] at hrun
  rw [hcount] at hle
  exact ⟨hn, hc, hcount, layout, q, lines, passes, hout, hle, hrelaxes, by rw [hrun.1], hrun.2,
    hleast⟩

end CilRestore
