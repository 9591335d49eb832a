import Mathlib.Data.List.Nodup
import Mathlib.Order.Bounds.Basic
import CilRestore.Proofs.StackDepth.Bound

/-!
# The deepest stack

The walk visits each place of an order once, whatever is reached and in whatever order it is found:
a place is visited only when it was not visited before (`Walk.Moves.mem_visits`), and the walk ends
when all were. So where every place is reached and depths fit together, what the walk answers is the
greatest depth after an instruction (`deepest_isGreatest`).
-/

namespace CilRestore.StackDepth

variable {p : Pool} {order : List Nat} {clauses : List Clause} {w w' : Walk}

open Walk

/-! ### The places that are visited -/

/-- A step visits a place at most, one that was not visited before. -/
theorem Walk.Move.mem_visited {visited : List Nat} (hm : Move p order w visited w')
    (hsize : w.depths.size = order.length) :
    visited.Nodup ∧ (∀ place ∈ visited, place < order.length ∧ w.depthAt place = none) ∧
      ∀ place, (w'.depthAt place).isSome = true ↔
        (w.depthAt place).isSome = true ∨ place ∈ visited := by
  cases hm with
  | skip hv => exact ⟨List.nodup_nil, by simp, fun place => by simp [depthAt]⟩
  | @visit w place depth id effect nexts hv hid heffect hnexts =>
    have hlt : place < order.length := (List.getElem?_eq_some_iff.mp hid).1
    refine ⟨List.nodup_singleton place, fun other ho => ?_, fun other => ?_⟩
    · rw [List.mem_singleton.mp ho]
      exact ⟨hlt, hv⟩
    · rw [depthAt_visit (by rw [show w.depths.size = order.length from hsize]; exact hlt),
        List.mem_singleton]
      split
      · simp [*]
      · simp [*, depthAt]
  | seed _ _ _ _ => exact ⟨List.nodup_nil, by simp, fun place => by simp [depthAt]⟩

/-- Each place is visited once at most: the places that were visited are those that were visited
before and those that the walk came to since. -/
theorem Walk.Moves.mem_visits {starts : List (Nat × Nat)} {visits : List Nat}
    (hm : Moves p order w visits w') (h : Inv p order starts w) :
    visits.Nodup ∧ (∀ place ∈ visits, place < order.length ∧ w.depthAt place = none) ∧
      ∀ place, (w'.depthAt place).isSome = true ↔
        (w.depthAt place).isSome = true ∨ place ∈ visits := by
  induction hm with
  | refl w => exact ⟨List.nodup_nil, by simp, fun place => by simp⟩
  | @head w w' w'' visited visits hstep _ ih =>
    obtain ⟨hnodup, hfresh, hsome⟩ := hstep.mem_visited h.size_eq
    obtain ⟨hnodup', hfresh', hsome'⟩ := ih (hstep.inv h)
    have hbefore : ∀ place ∈ visits, w.depthAt place = none ∧ place ∉ visited := by
      intro place hplace
      have hnone := (hfresh' place hplace).2
      have hnot : ¬ ((w.depthAt place).isSome = true ∨ place ∈ visited) := by
        rw [← hsome, hnone]
        simp
      exact ⟨by simpa using (not_or.mp hnot).1, (not_or.mp hnot).2⟩
    refine ⟨hnodup.append hnodup' fun place hin hin' => (hbefore place hin').2 hin, ?_, ?_⟩
    · intro place hplace
      rcases List.mem_append.mp hplace with hplace | hplace
      · exact hfresh place hplace
      · exact ⟨(hfresh' place hplace).1, (hbefore place hplace).1⟩
    · intro place
      rw [hsome', hsome, List.mem_append, or_assoc]

/-- The places after a place are determined. -/
theorem Walk.IsNexts.unique {place : Nat} {i : Instruction} {nexts nexts' : List Nat}
    (h : IsNexts order place i nexts) (h' : IsNexts order place i nexts') : nexts = nexts' := by
  obtain ⟨targets, htargets, rfl⟩ := h
  obtain ⟨targets', htargets', rfl⟩ := h'
  have hsame : targets = targets' := by
    refine List.ext_getElem (htargets.length_eq.symm.trans htargets'.length_eq) fun k hk hk' => ?_
    exact (htargets.get (by rw [htargets.length_eq]; exact hk) hk).unique
      (htargets'.get (by rw [htargets.length_eq]; exact hk) hk')
  rw [hsame]

/-- A walk goes one way. -/
theorem Walk.Move.unique {w'' : Walk} {visited visited' : List Nat}
    (h : Move p order w visited w') (h' : Move p order w visited' w'') :
    visited = visited' ∧ w' = w'' := by
  obtain ⟨depths, pending, deepest, seed⟩ := w
  obtain ⟨depths', pending', deepest', seed'⟩ := w'
  cases h with
  | skip hv =>
    cases h' with
    | skip _ => exact ⟨rfl, rfl⟩
    | visit hv' _ _ _ => exact absurd (hv' ▸ hv) (by simp)
    | seed hp _ _ _ => cases hp
  | @visit before _ _ _ _ _ hv hid heffect hnexts =>
    obtain ⟨depths, pending, deepest, seed⟩ := before
    cases h' with
    | skip hv' => exact absurd (hv ▸ hv') (by simp)
    | visit _ hid' heffect' hnexts' =>
      rw [hid, Option.some.injEq] at hid'
      subst hid'
      rw [heffect, Except.ok.injEq] at heffect'
      subst heffect'
      rw [hnexts.unique hnexts']
      exact ⟨rfl, rfl⟩
    | seed hp _ _ _ => cases hp
  | seed hp hv hlt hbelow =>
    cases hp
    cases h' with
    | seed _ hv' _ hbelow' =>
      -- Neither place lies before the other one.
      have hle : ∀ {a b : Nat}, (Walk.depthAt ⟨depths, [], deepest, seed⟩ a) = none →
          (∀ place < b, (Walk.depthAt ⟨depths, [], deepest, seed⟩ place).isSome = true) →
          b ≤ a := by
        intro a b ha hb
        by_contra hlt
        have := hb a (by omega)
        rw [ha] at this
        cases this
      rw [Nat.le_antisymm (hle hv' hbelow) (hle hv hbelow')]
      exact ⟨rfl, rfl⟩

/-! ### The depth that is answered -/

/-- The places that a walk visits are those of the order, each once. -/
theorem Walked.visits_perm {visits : List Nat} (h : Walked p order clauses visits w)
    (hne : order ≠ []) : visits.Perm (List.range order.length) := by
  obtain ⟨hnodup, hfresh, hsome⟩ := h.moves.mem_visits (inv_start p clauses hne)
  refine (List.perm_ext_iff_of_nodup hnodup List.nodup_range).mpr fun place => ?_
  rw [List.mem_range]
  constructor
  · exact fun hplace => (hfresh place hplace).1
  · intro hlt
    have hvisited := (hsome place).mp (h.visited place hlt)
    rw [depthAt_start] at hvisited
    simpa using hvisited

/-- The depths after the instructions of an order that is entered with these depths. -/
def depthsAfter (p : Pool) (order : List Nat) (depth : Nat → Nat) : Set Nat :=
  {d | ∃ place id effect, order[place]? = some id ∧ (p.fetch id).stackEffect = .ok effect ∧
    d = depthAfter effect (depth place)}

/-- Where everything is reached, the deepest stack that a walk saw is the greatest depth after an
instruction. -/
theorem Walked.isGreatest {visits : List Nat} (h : Walked p order clauses visits w)
    (hw : IsWalkable p order) (hne : order ≠ []) {depth : Nat → Nat}
    (hd : IsDepth p order clauses depth)
    (hreach : ∀ place < order.length, Reaches p order clauses place) :
    IsGreatest (depthsAfter p order depth) w.deepest := by
  have hat : ∀ place < order.length, w.depthAt place = some (depth place) := fun place hlt =>
    h.arrived hne hd place (hreach place hlt)
  constructor
  · rcases h.inv.attained with hzero | ⟨place, d, id, effect, hdepth, hid, heffect, hdeep⟩
    · -- Nothing is left on the stack anywhere, so nothing is after the first instruction.
      have hlt : 0 < order.length := List.length_pos_iff.mpr hne
      have hid : order[0]? = some order[0] := List.getElem?_eq_getElem hlt
      obtain ⟨effect, heffect⟩ := hw.exists_effect hid
      have hle := h.inv.covers 0 _ _ effect (hat 0 hlt) hid heffect
      exact ⟨0, _, effect, hid, heffect, by omega⟩
    · have hlt := (List.getElem?_eq_some_iff.mp hid).1
      rw [hat place hlt, Option.some.injEq] at hdepth
      exact ⟨place, id, effect, hid, heffect, by rw [hdeep, hdepth]⟩
  · rintro d ⟨place, id, effect, hid, heffect, rfl⟩
    have hlt := (List.getElem?_eq_some_iff.mp hid).1
    exact h.inv.covers place _ id effect (hat place hlt) hid heffect

/-- The walk over an order whose branches go to its own instructions ends: nothing is pending then,
and each place was visited, and once only. Where every place is reached and depths fit together, it
answers the greatest depth after an instruction. -/
theorem deepest_isGreatest (hw : IsWalkable p order) (clauses : List Clause) :
    (order = [] → deepest p order clauses = .ok 0) ∧
    (order ≠ [] → ∃ visits w,
      explore (Code.ofOrder p order) (Walk.start (Code.ofOrder p order) clauses) = .ok w ∧
      Moves p order (Walk.start (Code.ofOrder p order) clauses) visits w ∧ w.pending = [] ∧
      (∀ place < order.length, (w.depthAt place).isSome = true) ∧
      visits.Perm (List.range order.length) ∧ deepest p order clauses = .ok w.deepest ∧
      ∀ depth, IsDepth p order clauses depth →
        (∀ place < order.length, Reaches p order clauses place) →
        IsGreatest (depthsAfter p order depth) w.deepest) := by
  refine ⟨fun hempty => by rw [hempty]; rfl, fun hne => ?_⟩
  obtain ⟨visits, w, hwalked⟩ := exists_walked hw hne clauses
  exact ⟨visits, w, hwalked.explored, hwalked.moves, hwalked.pending, hwalked.visited,
    hwalked.visits_perm hne, hwalked.deepest_eq hne,
    fun depth hd hreach => hwalked.isGreatest hw hne hd hreach⟩

/-- A loop and two numbers in a protected block with a filter; everything is reached. -/
theorem deepest_isGreatest_of_filter :
    let push : Opcode := ⟨0x16, "ldc.i4.0", .nothing, some 0, some 1, .next⟩
    let pop : Opcode := ⟨0x26, "pop", .nothing, some 1, some 0, .next⟩
    let loop : Opcode := ⟨0x2D, "brtrue.s", .shortBranch, some 1, some 0, .condBranch⟩
    let leave : Opcode := ⟨0xDE, "leave.s", .shortBranch, some 0, some 0, .branch⟩
    let decided : Opcode := ⟨0xFE11, "endfilter", .nothing, some 1, some 0, .returns⟩
    let ret : Opcode := ⟨0x2A, "ret", .nothing, some 0, some 0, .returns⟩
    let p : Pool := #[⟨push, .nothing, 0, 0⟩, ⟨loop, .target 0, 1, 1⟩, ⟨push, .nothing, 3, 2⟩,
      ⟨push, .nothing, 4, 3⟩, ⟨leave, .target 10, 5, 4⟩, ⟨pop, .nothing, 7, 5⟩,
      ⟨push, .nothing, 8, 6⟩, ⟨decided, .nothing, 9, 7⟩, ⟨pop, .nothing, 11, 8⟩,
      ⟨leave, .target 10, 12, 9⟩, ⟨ret, .nothing, 14, 10⟩]
    let order := List.range 11
    let clauses : List Clause := [⟨1, 0, 7, 11, 3, 7⟩]
    let depth := fun place => [0, 1, 0, 1, 2, 1, 0, 1, 1, 0, 0].getD place 0
    IsWalkable p order ∧ IsDepth p order clauses depth ∧
      (∀ place < order.length, Reaches p order clauses place) ∧ order ≠ [] ∧
      ∃ visits w,
        explore (Code.ofOrder p order) (Walk.start (Code.ofOrder p order) clauses) = .ok w ∧
        Moves p order (Walk.start (Code.ofOrder p order) clauses) visits w ∧ w.pending = [] ∧
        visits.Perm (List.range 11) ∧ deepest p order clauses = .ok w.deepest ∧ w.deepest = 2 ∧
        IsGreatest (depthsAfter p order depth) 2 := by
  intro push pop loop leave decided ret p order clauses depth
  have hw : IsWalkable p order :=
    ⟨by decide, by decide, by decide, by decide, by decide⟩
  have hd : IsDepth p order clauses depth :=
    isDepth_of_fitsAt hw (by decide) (by decide +kernel) (by decide +kernel)
  have henter : ∀ x ∈ [((0 : Nat), (0 : Nat)), (5, 1), (8, 1)], Reaches p order clauses x.1 :=
    fun x hx => .enter ((mem_entries (x := x) (by decide)).mp (by revert x; decide +kernel))
  have honward : ∀ place ∈ [0, 1, 2, 3, 5, 6, 8], Goes p order place (place + 1) := by
    simp only [List.forall_mem_cons]
    exact ⟨.onward rfl rfl rfl (by decide), .onward rfl rfl rfl (by decide),
      .onward rfl rfl rfl (by decide), .onward rfl rfl rfl (by decide),
      .onward rfl rfl rfl (by decide), .onward rfl rfl rfl (by decide),
      .onward rfl rfl rfl (by decide), by simp⟩
  have hreach : ∀ place < order.length, Reaches p order clauses place := by
    have h0 := henter (0, 0) (by decide)
    have h1 := h0.go (honward 0 (by decide))
    have h2 := h1.go (honward 1 (by decide))
    have h3 := h2.go (honward 2 (by decide))
    have h4 := h3.go (honward 3 (by decide))
    have h5 := henter (5, 1) (by decide)
    have h6 := h5.go (honward 5 (by decide))
    have h7 := h6.go (honward 6 (by decide))
    have h8 := henter (8, 1) (by decide)
    have h9 := h8.go (honward 8 (by decide))
    have hlast : IsLast order (· = 10) 10 := by
      refine isLast_iff.mpr ⟨by decide, by decide, fun later h h' => ?_⟩
      rw [List.length_range] at h'
      omega
    have h10 := h9.go (.jump rfl (List.mem_singleton_self 10) hlast)
    have hall : ∀ place ∈ List.range 11, Reaches p order clauses place := by
      simp only [List.range, List.range.loop, List.forall_mem_cons]
      exact ⟨h0, h1, h2, h3, h4, h5, h6, h7, h8, h9, h10, by simp⟩
    exact fun place hlt => hall place (List.mem_range.mpr hlt)
  have hne : order ≠ [] := by decide
  obtain ⟨visits, w, hexplore, hmoves, hpending, -, hperm, hanswer, hgreatest⟩ :=
    (deepest_isGreatest hw clauses).2 hne
  have htwo : deepest p order clauses = .ok 2 := Sequence.toOption_eq_some.mp (by decide +kernel)
  have hw2 : w.deepest = 2 := Except.ok.inj (hanswer.symm.trans htwo)
  exact ⟨hw, hd, hreach, hne, visits, w, hexplore, hmoves, hpending, hperm, hanswer, hw2,
    hw2 ▸ hgreatest depth hd hreach⟩

end CilRestore.StackDepth
