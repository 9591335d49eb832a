import CilRestore.Proofs.Layout.Remapping

/-!
# Settled orders

An order is settled when its instructions stand one behind the other and its short branches reach
(`Pool.IsSettled`). Laying a closed order of distinct instructions out settles it
(`Pool.IsClosed.layOut_settles`), and there it ends: laying a settled order out moves nothing
(`Pool.IsSettled.layOut`), and a clause is kept as it is when its boundaries are boundaries of the
order, and dropped otherwise (`Pool.IsLaidOut.filterMap_carry?_self`).
-/

namespace CilRestore

/-- Where no offset moved, each is carried over to itself and no other one is. -/
theorem find?_zip_self (offsets : List Int) (offset : Int) :
    ((offsets.zip offsets).reverse.find? fun pair => pair.1 = offset).map (·.2) =
      if offset ∈ offsets then some offset else none := by
  have hzip : offsets.zip offsets = offsets.map fun x => (x, x) := by
    simpa using List.zip_map' (f := id) (g := id) (l := offsets)
  rw [hzip, ← List.map_reverse, List.find?_map, Option.map_map]
  cases hf : offsets.reverse.find? ((fun pair => decide (pair.1 = offset)) ∘ fun x => (x, x)) with
  | none =>
    have hno := List.find?_eq_none.mp hf
    rw [if_neg]
    · rfl
    · intro hm
      exact hno offset (List.mem_reverse.mpr hm) (by simp)
  | some x =>
    have hx : x = offset := by simpa using List.find?_some hf
    subst hx
    rw [if_pos (List.mem_reverse.mp (List.mem_of_find?_eq_some hf))]
    rfl

namespace Pool

variable {p q : Pool} {order : List Nat}

/-! ### Boundaries that stay -/

namespace IsLaidOut

/-- The last instruction of an order that is laid out ends where the order does. -/
theorem getLast (h : p.IsLaidOut order) {id : Nat} (hid : order.getLast? = some id) :
    0 ≤ (p.fetch id).offset ∧
      (p.fetch id).offset + p.sizeOf (p.fetch id) = (p.startIn order order.length : Int) := by
  rw [List.getLast?_eq_getElem?] at hid
  have hlt := (List.getElem?_eq_some_iff.mp hid).1
  have hend := startIn_succ (p := p) hid
  rw [Nat.sub_add_cancel (by omega)] at hend
  rw [h.offset _ id hid, hend, Int.natCast_add]
  exact ⟨Int.natCast_nonneg _, rfl⟩

/-- What is laid out ended before where it ends now. -/
theorem stop_eq (h : p.IsLaidOut order) (hne : order ≠ []) :
    (FormerPlaces.ofOrder p order).stop = (p.startIn order order.length : Int) := by
  have hlast := List.getLast?_eq_some_getLast hne
  obtain ⟨hpos, hend⟩ := h.getLast hlast
  simp only [FormerPlaces.ofOrder, hlast, if_pos hpos, hend]

/-- Its boundaries from before are those that it has. -/
theorem formerBoundaries_eq (h : p.IsLaidOut order) (hne : order ≠ []) :
    p.formerBoundaries order = order.map (fun id => (p.fetch id).offset) ++
      [(p.startIn order order.length : Int)] := by
  have hlast := List.getLast?_eq_some_getLast hne
  rw [formerBoundaries, hlast, Option.map_some, (h.getLast hlast).2]
  rfl

/-- A boundary of an order that is laid out stays when nothing moves, and no other offset becomes
anything. -/
theorem moved?_self (h : p.IsLaidOut order) (hne : order ≠ []) (old : Int) :
    p.moved? p order old = if old ∈ p.formerBoundaries order then some old else none := by
  rw [moved?, FormerPlaces.carry?, h.stop_eq hne, h.formerBoundaries_eq hne]
  by_cases hstop : old = (p.startIn order order.length : Int)
  · rw [if_pos hstop, if_pos (by simp [hstop]), hstop]
  · rw [if_neg hstop]
    simp only [List.mem_append, List.mem_singleton, hstop, or_false]
    split
    · rename_i hneg
      rw [if_neg]
      intro hm
      obtain ⟨id, hid, hold⟩ := List.mem_map.mp hm
      obtain ⟨place, hplace⟩ := List.mem_iff_getElem?.mp hid
      have := h.offset place id hplace
      omega
    · exact find?_zip_self _ old

/-- Of the clauses over an order that is laid out those between its boundaries are kept as they are,
and no other ones, when nothing moves. -/
theorem filterMap_carry?_self (h : p.IsLaidOut order) (hne : order ≠ []) (clauses : List Clause) :
    clauses.filterMap (Clause.carry? (p.moved? p order)) =
      clauses.filter fun c => c.boundaries.all (· ∈ p.formerBoundaries order) :=
  Clause.filterMap_carry?_eq_filter fun _ _ offset _ => h.moved?_self hne offset

end IsLaidOut

/-! ### Laying out again -/

/-- An order that laying out would leave as it is. -/
structure IsSettled (p : Pool) (order : List Nat) : Prop where
  /-- Its instructions stand one behind the other. -/
  laidOut : p.IsLaidOut order
  /-- Its short branches reach. -/
  near : ∀ id ∈ order, p.isFar id = false

/-- Laying a settled order out moves nothing. -/
theorem IsSettled.layOut (h : p.IsSettled order) (hclosed : p.IsClosed order) (hn : order.Nodup)
    (clauses : List Clause) :
    ∃ layout lines, layOut order clauses p = ⟨.ok layout, p, lines⟩ ∧
      layout.codeSize = p.startIn order order.length ∧
      layout.clauses = clauses.filterMap (Clause.carry? (p.moved? p order)) := by
  have hout := hclosed.layOut_eq clauses
  rw [h.laidOut.settle_eq hn hclosed.inside h.near] at hout
  exact ⟨_, _, hout, rfl, rfl⟩

/-- Laying a closed order of distinct instructions out settles it and keeps it closed. -/
theorem IsClosed.layOut_settles (hclosed : p.IsClosed order) (hn : order.Nodup)
    (clauses : List Clause) :
    ∃ layout q lines, layOut order clauses p = ⟨.ok layout, q, lines⟩ ∧ IsWidening order p q ∧
      q.IsSettled order ∧ q.IsClosed order ∧ layout.codeSize = q.startIn order order.length ∧
      layout.clauses = clauses.filterMap (Clause.carry? (p.moved? q order)) := by
  obtain ⟨passes, -, hrelaxes⟩ :=
    exists_relaxes hn hclosed.inside hclosed.defined (Nat.le_refl (p.shortBranches order))
  obtain ⟨hlaid, hwide⟩ := hrelaxes.spec hn hclosed.inside hclosed.defined
  exact ⟨_, _, _, hclosed.layOut_eq clauses, hwide, ⟨hlaid, hrelaxes.isFar⟩,
    hclosed.of_isWidening hwide, rfl, rfl⟩

end Pool

end CilRestore
