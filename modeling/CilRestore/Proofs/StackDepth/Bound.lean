import CilRestore.Proofs.StackDepth.Walk

/-!
# The bound on the stack depth

What the walk answers bounds the stack after every instruction that is reached
(`deepest_bounds_reached`). It is the deepest stack after an instruction, so the stack on entry to
one is bounded as well, but for the exception that a handler or a filter starts with: that one is
not counted before an instruction was executed.
-/

namespace CilRestore.StackDepth

variable {p : Pool} {order : List Nat} {clauses : List Clause} {depth : Nat → Nat}

open Walk

/-- At the start no place has a depth. -/
theorem Walk.depthAt_start (c : Code) (place : Nat) : (start c clauses).depthAt place = none := by
  rw [depthAt]
  simp only [start, Array.getD_eq_getD_getElem?, Array.getElem?_replicate]
  split <;> rfl

/-- The invariant of a walk holds at its start. -/
theorem Walk.inv_start (p : Pool) (clauses : List Clause) (hne : order ≠ []) :
    Inv p order (entries (Code.ofOrder p order) clauses).reverse
      (start (Code.ofOrder p order) clauses) := by
  refine ⟨by simp [start], fun x hx => ?_, fun x hx => Or.inr ⟨x.2, hx⟩, ?_, ?_, ?_, Or.inl rfl⟩
  · exact ((mem_entries hne).mp (List.mem_reverse.mp hx)).lt
  · intro place next hplace
    rw [depthAt_start] at hplace
    cases hplace
  · intro place hlt
    exact absurd hlt (Nat.not_lt_zero place)
  · intro place d id effect hplace
    rw [depthAt_start] at hplace
    cases hplace

/-- What the walk over an order has become when it ends. -/
structure Walked (p : Pool) (order : List Nat) (clauses : List Clause) (visits : List Nat)
    (w : Walk) : Prop where
  /-- The walk ended. -/
  explored : explore (Code.ofOrder p order) (Walk.start (Code.ofOrder p order) clauses) = .ok w
  /-- It took some steps. -/
  moves : Moves p order (Walk.start (Code.ofOrder p order) clauses) visits w
  /-- Nothing is pending. -/
  pending : w.pending = []
  /-- Every place was visited. -/
  visited : ∀ place < order.length, (w.depthAt place).isSome = true
  /-- The invariant holds. -/
  inv : Inv p order (entries (Code.ofOrder p order) clauses).reverse w

/-- The walk over an order that can be walked over ends. -/
theorem exists_walked (hw : IsWalkable p order) (hne : order ≠ []) (clauses : List Clause) :
    ∃ visits w, Walked p order clauses visits w := by
  have hinv := inv_start p clauses hne
  obtain ⟨visits, w, hexplore, hmoves, hpending, hvisited⟩ := explore_moves hw hinv
  exact ⟨visits, w, hexplore, hmoves, hpending, hvisited, hmoves.inv hinv⟩

namespace Walked

variable {visits : List Nat} {w : Walk}

/-- The answer is the deepest stack that the walk saw. -/
theorem deepest_eq (h : Walked p order clauses visits w) (hne : order ≠ []) :
    deepest p order clauses = .ok w.deepest := by
  rw [deepest, if_neg (by simpa using hne)]
  simp only [h.explored]
  rfl

/-- Whatever is reached was visited with the depth assigned to it. -/
theorem arrived (h : Walked p order clauses visits w) (hne : order ≠ [])
    (hd : IsDepth p order clauses depth) : Arrived p order clauses depth w := by
  have hmem : ∀ place d, Enters p order clauses place d →
      (place, d) ∈ (entries (Code.ofOrder p order) clauses).reverse :=
    fun place d he => List.mem_reverse.mpr ((mem_entries (x := (place, d)) hne).mpr he)
  have hagrees : Agrees depth (start (Code.ofOrder p order) clauses) := by
    refine ⟨fun place d hplace => ?_, fun x hx => ?_⟩
    · rw [depthAt_start] at hplace
      cases hplace
    · exact (hd.enters x.1 x.2 ((mem_entries hne).mp (List.mem_reverse.mp hx))).symm
  rcases h.moves.agrees_or_arrived hd (inv_start p clauses hne) hmem (Or.inl hagrees) with ha | ha
  · exact arrived_of_agrees h.inv hmem ha h.pending
  · exact ha

end Walked

/-- The stack after every instruction that is reached is no deeper than the walk answers. Nor is the
one on entry, with one exception: where no instruction leaves anything on the stack the walk answers
zero, although a handler or a filter starts with one slot. -/
theorem deepest_bounds_reached (hw : IsWalkable p order) (hd : IsDepth p order clauses depth) :
    ∃ bound, deepest p order clauses = .ok bound ∧
      ∀ place id effect, Reaches p order clauses place → order[place]? = some id →
        (p.fetch id).stackEffect = .ok effect →
        depthAfter effect (depth place) ≤ bound ∧ (depth place ≤ bound ∨
          bound = 0 ∧ depth place = 1 ∧ Enters p order clauses place 1) := by
  by_cases hne : order = []
  · subst hne
    exact ⟨0, rfl, fun place id _ _ hid => by simp at hid⟩
  obtain ⟨_, w, hwalked⟩ := exists_walked hw hne clauses
  have hafter : ∀ place id effect, Reaches p order clauses place → order[place]? = some id →
      (p.fetch id).stackEffect = .ok effect → depthAfter effect (depth place) ≤ w.deepest :=
    fun place id effect hreach hid he =>
      hwalked.inv.covers place _ id effect (hwalked.arrived hne hd place hreach) hid he
  refine ⟨w.deepest, hwalked.deepest_eq hne, fun place id effect hreach hid he =>
    ⟨hafter place id effect hreach hid he, ?_⟩⟩
  cases hreach with
  | enter henters =>
    have hdepth := hd.enters _ _ henters
    rename_i d
    have hle : d ≤ 1 := by
      cases henters with
      | first _ => omega
      | handler _ _ =>
        rw [Clause.handlerDepth]
        split <;> omega
      | filter _ _ _ => omega
    by_cases hbound : d ≤ w.deepest
    · exact Or.inl (by omega)
    · refine Or.inr ⟨by omega, by omega, ?_⟩
      rwa [show d = 1 by omega] at henters
  | @go before _ hbefore hgoes =>
    have hlt : before < order.length := by
      cases hgoes with
      | onward h _ _ _ => exact (List.getElem?_eq_some_iff.mp h).1
      | jump h _ _ => exact (List.getElem?_eq_some_iff.mp h).1
    obtain ⟨id', hid'⟩ : ∃ id', order[before]? = some id' := ⟨_, List.getElem?_eq_getElem hlt⟩
    obtain ⟨effect', he'⟩ := hw.exists_effect hid'
    have hle := hafter before id' effect' hbefore hid' he'
    have hstep : depthOnward (p.fetch id') (depthAfter effect' (depth before)) ≤
        depthAfter effect' (depth before) := by
      rw [depthOnward]
      split <;> omega
    rw [hd.goes before place id' effect' hgoes hid' he']
    exact Or.inl (Nat.le_trans hstep hle)

/-- A loop in a protected block with a filter, whose handler leaves the block. -/
theorem deepest_bounds_reached_of_filter :
    let push : Opcode := ⟨0x16, "ldc.i4.0", .nothing, some 0, some 1, .next⟩
    let pop : Opcode := ⟨0x26, "pop", .nothing, some 1, some 0, .next⟩
    let loop : Opcode := ⟨0x2D, "brtrue.s", .shortBranch, some 1, some 0, .condBranch⟩
    let leave : Opcode := ⟨0xDE, "leave.s", .shortBranch, some 0, some 0, .branch⟩
    let decided : Opcode := ⟨0xFE11, "endfilter", .nothing, some 1, some 0, .returns⟩
    let ret : Opcode := ⟨0x2A, "ret", .nothing, some 0, some 0, .returns⟩
    let p : Pool := #[⟨push, .nothing, 0, 0⟩, ⟨loop, .target 0, 1, 1⟩, ⟨leave, .target 8, 3, 2⟩,
      ⟨pop, .nothing, 5, 3⟩, ⟨push, .nothing, 6, 4⟩, ⟨decided, .nothing, 7, 5⟩,
      ⟨pop, .nothing, 9, 6⟩, ⟨leave, .target 8, 10, 7⟩, ⟨ret, .nothing, 12, 8⟩]
    let order := List.range 9
    let clauses : List Clause := [⟨1, 0, 5, 9, 3, 5⟩]
    let depth := fun place => [0, 1, 0, 1, 0, 1, 1, 0, 0].getD place 0
    IsWalkable p order ∧ IsDepth p order clauses depth ∧ Reaches p order clauses 6 ∧
      ∃ bound, deepest p order clauses = .ok bound ∧ depthAfter (1, 0) (depth 6) ≤ bound ∧
        (depth 6 ≤ bound ∨ bound = 0 ∧ depth 6 = 1 ∧ Enters p order clauses 6 1) := by
  intro push pop loop leave decided ret p order clauses depth
  have hw : IsWalkable p order :=
    ⟨by decide, by decide, by decide, by decide, by decide⟩
  have hd : IsDepth p order clauses depth :=
    isDepth_of_fitsAt hw (by decide) (by decide +kernel) (by decide +kernel)
  have hreach : Reaches p order clauses 6 :=
    .enter ((mem_entries (x := (6, 1)) (by decide)).mp (by decide +kernel))
  obtain ⟨bound, hbound, h⟩ := deepest_bounds_reached hw hd
  exact ⟨hw, hd, hreach, bound, hbound, h 6 6 (1, 0) hreach (by decide) rfl⟩

/-- A handler that only takes the exception off the stack: it starts with one slot, and the walk
answers zero. -/
theorem deepest_misses_exception :
    let pop : Opcode := ⟨0x26, "pop", .nothing, some 1, some 0, .next⟩
    let leave : Opcode := ⟨0xDE, "leave.s", .shortBranch, some 0, some 0, .branch⟩
    let ret : Opcode := ⟨0x2A, "ret", .nothing, some 0, some 0, .returns⟩
    let p : Pool := #[⟨leave, .target 3, 0, 0⟩, ⟨pop, .nothing, 2, 1⟩, ⟨leave, .target 3, 3, 2⟩,
      ⟨ret, .nothing, 5, 3⟩]
    let order := List.range 4
    let clauses : List Clause := [⟨0, 0, 2, 2, 3, 0x01000001⟩]
    let depth := fun place => [0, 1, 0, 0].getD place 0
    IsWalkable p order ∧ IsDepth p order clauses depth ∧ Reaches p order clauses 1 ∧
      ¬ ∃ bound, deepest p order clauses = .ok bound ∧ depth 1 ≤ bound := by
  intro pop leave ret p order clauses depth
  have hw : IsWalkable p order :=
    ⟨by decide, by decide, by decide, by decide, by decide⟩
  refine ⟨hw, isDepth_of_fitsAt hw (by decide) (by decide +kernel) (by decide +kernel),
    .enter ((mem_entries (x := (1, 1)) (by decide)).mp (by decide +kernel)), ?_⟩
  rintro ⟨bound, hbound, hle⟩
  have hzero : deepest p order clauses = .ok 0 := Sequence.toOption_eq_some.mp (by decide +kernel)
  rw [hzero, Except.ok.injEq] at hbound
  rw [← hbound] at hle
  exact absurd hle (by decide)

end CilRestore.StackDepth
