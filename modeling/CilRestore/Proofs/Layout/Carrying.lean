import CilRestore.Proofs.Actions
import CilRestore.Proofs.Code.Writing
import CilRestore.Proofs.Layout.Relaxation

/-!
# Clauses that are carried over

What laying out answers once every instruction has a size and every short branch a target
(`layOut_eq`), and that it answers nothing else (`layout_of_ends`). Where no instruction moves, a
clause is kept as it is when each of its boundaries is the start of an instruction or the end of the
last one, and is dropped otherwise.
-/

namespace CilRestore

/-- A layout does not break off where every instruction has a size. -/
theorem Pool.breaksOff?_eq_none {p : Pool} {order : List Nat}
    (h : ∀ id ∈ order, p.sizeFault? (p.fetch id) = none) : p.breaksOff? order = none := by
  have hearly : (order.getLast?.bind fun id =>
      if 0 ≤ (p.fetch id).offset then p.sizeFault? (p.fetch id) else none) = none := by
    cases hl : order.getLast? with
    | none => rfl
    | some id =>
      rw [Option.bind_some, h id (List.mem_of_getLast? hl)]
      split <;> rfl
  simp only [Pool.breaksOff?, hearly]
  rw [List.findSome?_eq_none_iff]
  rintro ⟨id, place⟩ hm
  rw [h id (List.fst_mem_of_mem_zipIdx hm)]
  rfl

/-- Laying out settles the order and carries the clauses over. -/
theorem layOut_eq {p : Pool} {order : List Nat} (clauses : List Clause)
    (hsize : ∀ id ∈ order, p.sizeFault? (p.fetch id) = none)
    (htarget : ∀ id ∈ order, (p.fetch id).opcode.isShortBranch → (p.fetch id).isDangling = false) :
    let q := (p.settle (p.shortBranches order) order).1
    let layout := Layout.ofClauses (FormerPlaces.ofOrder p order) q order
      (order.map fun id => q.sizeOf (q.fetch id)).sum clauses
    layOut order clauses p = ⟨.ok layout, q, layout.dropped.map Clause.droppedLine⟩ := by
  have hbroken : (order.findIdx? fun id =>
      (p.fetch id).opcode.isShortBranch && (p.fetch id).isDangling) = none := by
    rw [List.findIdx?_eq_none_iff]
    intro id hid
    by_cases hs : (p.fetch id).opcode.isShortBranch
    · rw [htarget id hid hs, Bool.and_false]
    · rw [Bool.not_eq_true] at hs
      rw [hs, Bool.false_and]
  simp only [layOut, bind, Action.bind, Action.read, Pool.breaksOff?_eq_none hsize, hbroken, pure,
    Action.pure, Action.update, Action.sayAll, List.nil_append, List.append_nil]

/-- A closed order is laid out without fault. -/
theorem Pool.IsClosed.layOut_eq {p : Pool} {order : List Nat} (h : p.IsClosed order)
    (clauses : List Clause) :
    let q := (p.settle (p.shortBranches order) order).1
    let layout := Layout.ofClauses (FormerPlaces.ofOrder p order) q order
      (q.startIn order order.length) clauses
    layOut order clauses p = ⟨.ok layout, q, layout.dropped.map Clause.droppedLine⟩ := by
  have hsize : ∀ id ∈ order, p.sizeFault? (p.fetch id) = none := by
    intro id hid
    rw [sizeFault?, sizeOf?_of_table (h.tabled id hid)]
  simp only [startIn_length]
  exact CilRestore.layOut_eq clauses hsize fun id hid _ => h.aims id hid

/-- Distinct instructions that go to one another are laid out in as many passes as it takes. -/
theorem Pool.IsClosed.exists_layOut {p : Pool} {order : List Nat} (h : p.IsClosed order)
    (hn : order.Nodup) (clauses : List Clause) :
    ∃ layout q lines passes, layOut order clauses p = ⟨.ok layout, q, lines⟩ ∧
      passes ≤ p.shortBranches order + 1 ∧ Relaxes order passes p q ∧
      layout.codeSize = q.startIn order order.length := by
  obtain ⟨passes, hle, hrelaxes⟩ := exists_relaxes hn h.inside h.defined (Nat.le_refl _)
  exact ⟨_, _, _, passes, h.layOut_eq clauses, hle, hrelaxes, rfl⟩

/-- What an order that was laid out has become: it is settled, and the clauses are carried over. -/
theorem layout_of_ends {p q : Pool} {order : List Nat} {clauses : List Clause} {layout : Layout}
    (h : (layOut order clauses).Ends p layout q) :
    q = (p.settle (p.shortBranches order) order).1 ∧
      layout = Layout.ofClauses (FormerPlaces.ofOrder p order) q order
        (order.map fun id => q.sizeOf (q.fetch id)).sum clauses := by
  obtain ⟨_, _, hread, h⟩ := Action.ends_bind.mp h
  obtain ⟨rfl, rfl⟩ := Action.ends_read.mp hread
  cases hbreak : Pool.breaksOff? p order with
  | some broken =>
    simp only [hbreak, Action.ends_bind, Action.ends_fail, false_and, and_false, exists_false] at h
  | none =>
    simp only [hbreak] at h
    split at h
    · simp only [Action.ends_bind, Action.ends_fail, and_false, exists_false] at h
    · simp only [Action.ends_bind, Action.ends_update, Action.ends_read, Action.ends_pure,
        Action.ends_sayAll] at h
      obtain ⟨_, _, rfl, _, _, ⟨rfl, rfl⟩, _, _, rfl, rfl, rfl⟩ := h
      exact ⟨rfl, rfl⟩

namespace Clause

/-- The offsets that bound the ranges of a clause, and where its filter starts. -/
def boundaries (c : Clause) : List Int :=
  [c.tryOffset, c.tryOffset + c.tryLength, c.handlerOffset, c.handlerOffset + c.handlerLength] ++
    if c.flags = filter then [c.token] else []

/-- All that bounds a clause lies at or behind the start of the code. -/
theorem boundaries_nonneg {c : Clause} (h : ∀ field ∈ c.fields, 0 ≤ field) :
    ∀ offset ∈ c.boundaries, 0 ≤ offset := by
  simp only [Clause.fields, List.forall_mem_cons] at h
  obtain ⟨_, h1, h2, h3, h4, h5, _⟩ := h
  intro offset hm
  simp only [boundaries, List.mem_append, List.mem_cons, List.not_mem_nil, or_false] at hm
  rcases hm with (rfl | rfl | rfl | rfl) | hm
  · exact h1
  · omega
  · exact h3
  · omega
  · split at hm
    · rw [List.mem_singleton] at hm
      rwa [hm]
    · simp at hm

/-- A clause none of whose boundaries moves is carried over as it is. -/
theorem carry?_eq_self {carry : Int → Option Int} {c : Clause}
    (h : ∀ offset ∈ c.boundaries, carry offset = some offset) : c.carry? carry = some c := by
  have h1 := h c.tryOffset (by simp [boundaries])
  have h2 := h (c.tryOffset + c.tryLength) (by simp [boundaries])
  have h3 := h c.handlerOffset (by simp [boundaries])
  have h4 := h (c.handlerOffset + c.handlerLength) (by simp [boundaries])
  have htry : c.tryOffset + c.tryLength - c.tryOffset = c.tryLength := by omega
  have hhandler : c.handlerOffset + c.handlerLength - c.handlerOffset = c.handlerLength := by omega
  by_cases hf : c.flags = filter
  · have h5 := h c.token (by simp [boundaries, hf])
    simp [carry?, h1, h2, h3, h4, h5, hf, htry, hhandler]
    rw [← hf]
  · simp [carry?, h1, h2, h3, h4, hf, htry, hhandler]

/-- A clause with a boundary that is not carried over is not carried over either. -/
theorem carry?_eq_none {carry : Int → Option Int} {c : Clause} {offset : Int}
    (hm : offset ∈ c.boundaries) (h : carry offset = none) : c.carry? carry = none := by
  simp only [boundaries, List.mem_append, List.mem_cons, List.not_mem_nil, or_false] at hm
  rw [carry?]
  rcases hm with (rfl | rfl | rfl | rfl) | hm
  · rw [h]
    rfl
  · cases carry c.tryOffset <;> simp [h]
  · cases carry c.tryOffset <;> cases carry (c.tryOffset + c.tryLength) <;> simp [h]
  · cases carry c.tryOffset <;> cases carry (c.tryOffset + c.tryLength) <;>
      cases carry c.handlerOffset <;> simp [h]
  · split at hm
    · rename_i hf
      rw [List.mem_singleton] at hm
      subst hm
      cases carry c.tryOffset <;> cases carry (c.tryOffset + c.tryLength) <;>
        cases carry c.handlerOffset <;> cases carry (c.handlerOffset + c.handlerLength) <;>
        simp [h, hf]
    · simp at hm

/-- Where offsets are carried over to themselves or not at all, a clause is kept as it is when all
of its boundaries are carried over, and dropped otherwise. -/
theorem filterMap_carry?_eq_filter {carry : Int → Option Int} {kept : List Int}
    {clauses : List Clause} (h : ∀ c ∈ clauses, ∀ offset ∈ c.boundaries,
      carry offset = if offset ∈ kept then some offset else none) :
    clauses.filterMap (carry? carry) =
      clauses.filter fun c => c.boundaries.all (· ∈ kept) := by
  rw [← List.filterMap_eq_filter]
  apply List.filterMap_congr
  intro c hm
  by_cases hall : c.boundaries.all (· ∈ kept)
  · have hmem : ∀ offset ∈ c.boundaries, offset ∈ kept := by
      simpa using hall
    rw [carry?_eq_self fun offset ho => by rw [h c hm offset ho, if_pos (hmem offset ho)],
      Option.guard, if_pos hall]
  · obtain ⟨offset, ho, hnot⟩ : ∃ offset ∈ c.boundaries, offset ∉ kept := by
      simpa using hall
    rw [carry?_eq_none ho (by rw [h c hm offset ho, if_neg hnot]), Option.guard,
      if_neg (by simpa using hall)]

end Clause

end CilRestore
