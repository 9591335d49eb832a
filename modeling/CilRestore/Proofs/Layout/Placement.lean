import CilRestore.Body.Layout
import CilRestore.Instruction.Encode

/-!
# Placing instructions

Placing an order changes where its instructions are and nothing else (`Pool.SameCode`), and puts
each behind all those before it (`Pool.IsLaidOut`).
-/

namespace CilRestore.Pool

-- Sums of numbers are those of the core library, whatever else is imported.
attribute [local instance (high)] Zero.ofOfNat0

/-- Two pools hold the same instructions, but for where these are. -/
structure SameCode (p q : Pool) : Prop where
  /-- They have the same identities. -/
  size_eq : q.size = p.size
  /-- They have the same opcodes. -/
  opcode : ∀ id, (q.fetch id).opcode = (p.fetch id).opcode
  /-- They have the same operands. -/
  operand : ∀ id, (q.fetch id).operand = (p.fetch id).operand

/-- Where the place of an order begins when the instructions stand one behind the other. -/
def startIn (p : Pool) (order : List Nat) (place : Nat) : Nat :=
  ((order.take place).map fun id => p.sizeOf (p.fetch id)).sum

/-- The instructions of an order stand one behind the other and know their places. -/
structure IsLaidOut (p : Pool) (order : List Nat) : Prop where
  /-- Each begins behind those before it. -/
  offset : ∀ place id : Nat, order[place]? = some id →
    (p.fetch id).offset = (p.startIn order place : Int)
  /-- Each knows its place. -/
  index : ∀ place id : Nat, order[place]? = some id → (p.fetch id).index = (place : Int)

variable {p q r : Pool}

/-- Putting an instruction somewhere changes nothing else. -/
theorem fetch_put (p : Pool) (id other : Nat) (i : Instruction) :
    (p.put id i).fetch other = if other = id ∧ id < p.size then i else p.fetch other := by
  by_cases h : other = id
  · subst h
    by_cases hs : other < p.size
    · rw [if_pos ⟨rfl, hs⟩, fetch_put_self hs]
    · rw [if_neg (by omega), put, Array.setIfInBounds_eq_of_size_le (by omega)]
  · rw [if_neg (fun hc => h hc.1), fetch_put_of_ne h]

/-- A pool is told by its instructions. -/
theorem ext_fetch (hsize : q.size = p.size) (hfetch : ∀ id, q.fetch id = p.fetch id) : q = p := by
  apply Array.ext hsize
  intro id hl hr
  have := hfetch id
  simpa [fetch, Array.getD_eq_getD_getElem?, hl, hr] using this

namespace SameCode

theorem refl (p : Pool) : SameCode p p := ⟨rfl, fun _ => rfl, fun _ => rfl⟩

theorem trans (h : SameCode p q) (h' : SameCode q r) : SameCode p r :=
  ⟨h'.size_eq.trans h.size_eq, fun id => (h'.opcode id).trans (h.opcode id),
    fun id => (h'.operand id).trans (h.operand id)⟩

/-- Moving an instruction keeps the code. -/
theorem put (p : Pool) (id : Nat) (offset index : Int) :
    SameCode p (p.put id { p.fetch id with offset, index }) := by
  refine ⟨size_put _ _ _, ?_, ?_⟩ <;>
    · intro other
      rw [fetch_put]
      split
      · rename_i h
        rw [h.1]
      · rfl

/-- The size of an instruction does not depend on where any of them is. -/
theorem sizeWithin (h : SameCode p q) {i j : Instruction} (ho : j.opcode = i.opcode)
    (ha : j.operand = i.operand) (fuel : Nat) : q.sizeWithin fuel j = p.sizeWithin fuel i := by
  have hsize : j.size = i.size := by rw [Instruction.size, ho, ha, ← Instruction.size]
  have hlacks : j.lacksTable = i.lacksTable := by
    rw [Instruction.lacksTable, ho, ha, ← Instruction.lacksTable]
  induction fuel generalizing i j with
  | zero => rfl
  | succ fuel ih =>
    rw [Pool.sizeWithin, Pool.sizeWithin, hlacks, ha, hsize]
    split
    · cases i.operand.target? with
      | none => rfl
      | some id =>
        have hs : (q.fetch id).size = (p.fetch id).size := by
          rw [Instruction.size, h.opcode, h.operand, ← Instruction.size]
        have hl : (q.fetch id).lacksTable = (p.fetch id).lacksTable := by
          rw [Instruction.lacksTable, h.opcode, h.operand, ← Instruction.lacksTable]
        simp only [ih (h.opcode id) (h.operand id) hs hl]
    · rfl

/-- Instructions of the same code have the same sizes. -/
theorem sizeOf (h : SameCode p q) (id : Nat) : q.sizeOf (q.fetch id) = p.sizeOf (p.fetch id) := by
  have hs : (q.fetch id).size = (p.fetch id).size := by
    rw [Instruction.size, h.opcode, h.operand, ← Instruction.size]
  rw [Pool.sizeOf, Pool.sizeOf, sizeOf?, sizeOf?, h.size_eq, hs,
    h.sizeWithin (h.opcode id) (h.operand id)]

/-- They start at the same offsets. -/
theorem startIn (h : SameCode p q) (order : List Nat) (place : Nat) :
    q.startIn order place = p.startIn order place := by
  rw [Pool.startIn, Pool.startIn]
  exact congrArg List.sum (List.map_congr_left fun id _ => h.sizeOf id)

/-- As many of them are short branches. -/
theorem shortBranches (h : SameCode p q) (order : List Nat) :
    q.shortBranches order = p.shortBranches order := by
  simp only [Pool.shortBranches, h.opcode]

end SameCode

@[simp] theorem startIn_zero (p : Pool) (order : List Nat) : p.startIn order 0 = 0 := by
  simp [startIn]

theorem startIn_cons_succ (p : Pool) (id : Nat) (rest : List Nat) (place : Nat) :
    p.startIn (id :: rest) (place + 1) = p.sizeOf (p.fetch id) + p.startIn rest place := by
  simp [startIn]

/-- The next instruction starts behind this one. -/
theorem startIn_succ {order : List Nat} {place id : Nat} (h : order[place]? = some id) :
    p.startIn order (place + 1) = p.startIn order place + p.sizeOf (p.fetch id) := by
  simp [startIn, List.take_add_one, h]

/-- Behind the last place the order ends. -/
theorem startIn_length (p : Pool) (order : List Nat) :
    p.startIn order order.length = (order.map fun id => p.sizeOf (p.fetch id)).sum := by
  rw [startIn, List.take_length]

/-- Later instructions start no earlier. -/
theorem startIn_le (order : List Nat) {i j : Nat} (h : i ≤ j) :
    p.startIn order i ≤ p.startIn order j := by
  obtain ⟨k, rfl⟩ := Nat.exists_eq_add_of_le h
  rw [startIn, startIn, List.take_add, List.map_append, List.sum_append]
  omega

/-- The displacement of a branch is the distance from the place behind it to its target. -/
theorem IsLaidOut.displacement_eq {order : List Nat} (hl : IsLaidOut p order)
    {place other id target : Nat} (hid : order[place]? = some id)
    (ht : order[other]? = some target) (htabled : (p.fetch id).lacksTable = false) :
    p.displacement (p.fetch id) target =
      (p.startIn order other : Int) - p.startIn order (place + 1) := by
  rw [displacement, hl.offset other target ht, hl.offset place id hid, startIn_succ hid,
    sizeOf_of_table htabled, Int.natCast_add]

/-! ### Assigning offsets -/

/-- Giving instructions their places keeps the code. -/
theorem assignFrom_sameCode (order : List Nat) (index offset : Nat) (p : Pool) :
    SameCode p (assignFrom order index offset p).1 := by
  induction order generalizing index offset p with
  | nil => exact .refl p
  | cons id rest ih => exact (SameCode.put p id offset index).trans (ih _ _ _)

/-- What stands outside of an order stays where it is. -/
theorem fetch_assignFrom_of_notMem {order : List Nat} {id : Nat} (h : id ∉ order)
    (index offset : Nat) (p : Pool) :
    (assignFrom order index offset p).1.fetch id = p.fetch id := by
  induction order generalizing index offset p with
  | nil => rfl
  | cons other rest ih =>
    rw [List.mem_cons, not_or] at h
    rw [assignFrom, ih h.2, fetch_put_of_ne h.1]

/-- An instruction that stands in an order several times is where it stands last. -/
theorem fetch_assignFrom_of_last {order : List Nat} {place id : Nat} (h : order[place]? = some id)
    (hlast : ∀ later, place < later → order[later]? ≠ some id) (hb : id < p.size)
    (index offset : Nat) :
    (assignFrom order index offset p).1.fetch id =
      { p.fetch id with
        offset := (offset + p.startIn order place : Nat), index := (index + place : Nat) } := by
  induction order generalizing index offset p place with
  | nil => simp at h
  | cons other rest ih =>
    have hsame := SameCode.put p other offset index
    rw [assignFrom]
    cases place with
    | zero =>
      rw [List.getElem?_cons_zero, Option.some.injEq] at h
      subst h
      have hfirst : other ∉ rest := by
        intro hm
        obtain ⟨later, hlater⟩ := List.mem_iff_getElem?.mp hm
        exact hlast (later + 1) (Nat.succ_pos _) hlater
      rw [fetch_assignFrom_of_notMem hfirst, fetch_put_self hb]
      simp
    | succ place =>
      rw [List.getElem?_cons_succ] at h
      have hput := ih (p := p.put other { p.fetch other with offset, index }) h
        (fun later hlt => hlast (later + 1) (Nat.succ_lt_succ hlt)) (by rw [size_put]; exact hb)
        (index + 1) (offset + p.sizeOf (p.fetch other))
      rw [hput, hsame.startIn, startIn_cons_succ]
      simp only [hsame.opcode id, hsame.operand id, Instruction.mk.injEq, true_and]
      omega

/-- Each instruction gets the offset behind those before it, and its number. -/
theorem fetch_assignFrom {order : List Nat} (hn : order.Nodup) (hb : ∀ id ∈ order, id < p.size)
    {place id : Nat} (h : order[place]? = some id) (index offset : Nat) :
    (assignFrom order index offset p).1.fetch id =
      { p.fetch id with
        offset := (offset + p.startIn order place : Nat), index := (index + place : Nat) } := by
  refine fetch_assignFrom_of_last h (fun later hlt hlater => ?_) (hb id (List.mem_of_getElem? h))
    index offset
  have heq := (List.getElem?_inj (List.getElem?_eq_some_iff.mp h).1 hn).mp (h.trans hlater.symm)
  omega

/-- The offset behind the last one is the size of them all. -/
theorem assignFrom_snd (order : List Nat) (index offset : Nat) (p : Pool) :
    (assignFrom order index offset p).2 = offset + p.startIn order order.length := by
  induction order generalizing index offset p with
  | nil => simp [assignFrom, startIn]
  | cons id rest ih =>
    rw [assignFrom, ih, (SameCode.put p id offset index).startIn, List.length_cons,
      startIn_cons_succ]
    omega

theorem assign_sameCode (p : Pool) (order : List Nat) : SameCode p (p.assign order).1 :=
  assignFrom_sameCode order 0 0 p

theorem assign_snd (p : Pool) (order : List Nat) :
    (p.assign order).2 = p.startIn order order.length := by
  rw [assign, assignFrom_snd, Nat.zero_add]

/-- Placing an order lays it out. -/
theorem assign_isLaidOut {order : List Nat} (hn : order.Nodup) (hb : ∀ id ∈ order, id < p.size) :
    IsLaidOut (p.assign order).1 order := by
  constructor
  · intro place id h
    rw [(p.assign_sameCode order).startIn, assign, fetch_assignFrom hn hb h, Nat.zero_add]
  · intro place id h
    rw [assign, fetch_assignFrom hn hb h, Nat.zero_add, Nat.zero_add]

/-- Placing what is laid out moves nothing. -/
theorem IsLaidOut.assign_eq {order : List Nat} (h : IsLaidOut p order) (hn : order.Nodup)
    (hb : ∀ id ∈ order, id < p.size) : (p.assign order).1 = p := by
  have hsize := (p.assign_sameCode order).size_eq
  have hfetch : ∀ id, (p.assign order).1.fetch id = p.fetch id := by
    intro id
    by_cases hm : id ∈ order
    · obtain ⟨place, hp⟩ := List.mem_iff_getElem?.mp hm
      have ho := h.offset place id hp
      have hi := h.index place id hp
      rw [assign, fetch_assignFrom hn hb hp, Nat.zero_add, Nat.zero_add, ← ho, ← hi]
    · exact fetch_assignFrom_of_notMem hm 0 0 p
  exact ext_fetch hsize hfetch

end CilRestore.Pool
