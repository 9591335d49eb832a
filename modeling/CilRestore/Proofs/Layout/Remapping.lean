import CilRestore.Proofs.Layout.Carrying

/-!
# Clauses over edited code

An order may have lost instructions since it was laid out and gained new ones, as long as those that
were laid out before still stand in their order (`Pool.IsEdited`). Its clauses are then carried over
by place: a former boundary was the start of an instruction or the end of the last one
(`Pool.FormerAt`), and it becomes the place where that instruction starts now, or the new end. Both
old and new offsets grow from place to place, so a range holds the same instructions as before
(`RangeFollows`).
-/

namespace CilRestore

/-- An instruction takes one byte at least. -/
theorem Instruction.size_pos (i : Instruction) : 0 < i.size := by
  have h := i.opcode.size_pos
  rw [Instruction.size]
  split <;> omega

namespace Pool

variable {p q : Pool} {order : List Nat}

/-- Every instruction takes bytes. -/
theorem sizeOf_pos (p : Pool) (i : Instruction) : 0 < p.sizeOf i := by
  have hpos := i.size_pos
  have hwithin : ∀ fuel size, p.sizeWithin fuel i = .ok size → 0 < size := by
    intro fuel size h
    cases fuel with
    | zero => cases h
    | succ fuel =>
      rw [sizeWithin] at h
      split at h
      · split at h
        · obtain ⟨entries, -, rfl⟩ := Sequence.map_eq_ok.mp h
          omega
        · cases h
      · cases h
        exact hpos
  rw [sizeOf]
  split
  · rename_i size h
    exact hwithin _ size h
  · exact hpos

/-! ### Edited orders -/

/-- An order that was made from one that was laid out by taking instructions out and putting new
ones in, which have no offset yet. -/
structure IsEdited (p : Pool) (order : List Nat) : Prop where
  /-- The instructions that were laid out stand in their former order, none over another one. -/
  apart : order.Pairwise fun a b => 0 ≤ (p.fetch a).offset → 0 ≤ (p.fetch b).offset →
    (p.fetch a).offset + p.sizeOf (p.fetch a) ≤ (p.fetch b).offset
  /-- The last instruction is one of them. -/
  last : ∃ id, order.getLast? = some id ∧ 0 ≤ (p.fetch id).offset

/-- Where the instructions of an order started, and where the last one ended. -/
def formerBoundaries (p : Pool) (order : List Nat) : List Int :=
  order.map (fun id => (p.fetch id).offset) ++
    (order.getLast?.map fun id => (p.fetch id).offset + p.sizeOf (p.fetch id)).toList

/-- A former boundary of an order belongs to a place: an instruction started there, or it is the
place behind the last one, which ended there. -/
inductive FormerAt (p : Pool) (order : List Nat) (offset : Int) : Nat → Prop
  | start {place id : Nat} (hid : order[place]? = some id) (h : (p.fetch id).offset = offset)
      (hpos : 0 ≤ (p.fetch id).offset) : FormerAt p order offset place
  | stop {id : Nat} (hid : order.getLast? = some id)
      (h : (p.fetch id).offset + p.sizeOf (p.fetch id) = offset)
      (hpos : 0 ≤ (p.fetch id).offset) : FormerAt p order offset order.length

/-- Instructions that were laid out are as far apart as they were long. -/
theorem IsEdited.offset_le (he : p.IsEdited order) {i j a b : Nat} (hij : i < j)
    (ha : order[i]? = some a) (hb : order[j]? = some b) (hposa : 0 ≤ (p.fetch a).offset)
    (hposb : 0 ≤ (p.fetch b).offset) :
    (p.fetch a).offset + p.sizeOf (p.fetch a) ≤ (p.fetch b).offset := by
  obtain ⟨hi, rfl⟩ := List.getElem?_eq_some_iff.mp ha
  obtain ⟨hj, rfl⟩ := List.getElem?_eq_some_iff.mp hb
  exact List.pairwise_iff_getElem.mp he.apart i j hi hj hij hposa hposb

/-- An instruction that was laid out stands in an order once. -/
theorem IsEdited.place_unique (he : p.IsEdited order) {i j id : Nat} (hi : order[i]? = some id)
    (hj : order[j]? = some id) (hpos : 0 ≤ (p.fetch id).offset) : i = j := by
  have hsize := p.sizeOf_pos (p.fetch id)
  rcases Nat.lt_trichotomy i j with hlt | heq | hlt
  · have := he.offset_le hlt hi hj hpos hpos
    omega
  · exact heq
  · have := he.offset_le hlt hj hi hpos hpos
    omega

/-- A former boundary lies before the instructions from its place on and behind those before it. -/
theorem FormerAt.apart {offset : Int} {k i id : Nat} (h : FormerAt p order offset k)
    (he : p.IsEdited order) (hid : order[i]? = some id) (hpos : 0 ≤ (p.fetch id).offset) :
    k ≤ i ∧ offset ≤ (p.fetch id).offset ∨
      i < k ∧ (p.fetch id).offset + p.sizeOf (p.fetch id) ≤ offset := by
  cases h with
  | @start _ other hother hoffset hposo =>
    subst hoffset
    rcases Nat.lt_trichotomy k i with hlt | rfl | hlt
    · have := he.offset_le hlt hother hid hposo hpos
      exact Or.inl ⟨Nat.le_of_lt hlt, by omega⟩
    · rw [hother, Option.some.injEq] at hid
      subst hid
      exact Or.inl ⟨Nat.le_refl _, Int.le_refl _⟩
    · exact Or.inr ⟨hlt, he.offset_le hlt hid hother hpos hposo⟩
  | @stop other hother hoffset hposo =>
    subst hoffset
    have hlt := (List.getElem?_eq_some_iff.mp hid).1
    refine Or.inr ⟨hlt, ?_⟩
    rw [List.getLast?_eq_getElem?] at hother
    rcases Nat.lt_or_ge i (order.length - 1) with hbefore | hlast
    · have := he.offset_le hbefore hid hother hpos hposo
      omega
    · rw [show order.length - 1 = i by omega, hid, Option.some.injEq] at hother
      rw [hother]

theorem FormerAt.le_length {offset : Int} {k : Nat} (h : FormerAt p order offset k) :
    k ≤ order.length := by
  cases h with
  | start hid _ _ => exact Nat.le_of_lt (List.getElem?_eq_some_iff.mp hid).1
  | stop _ _ _ => exact Nat.le_refl _

/-- A boundary belongs to one place. -/
theorem FormerAt.unique {offset : Int} {k l : Nat} (h : FormerAt p order offset k)
    (h' : FormerAt p order offset l) (he : p.IsEdited order) : k = l := by
  have hle : ∀ {i j : Nat}, FormerAt p order offset i → FormerAt p order offset j → j ≤ i := by
    intro i j hi hj
    cases hi with
    | @start _ id hid hoffset hpos =>
      have hsize := p.sizeOf_pos (p.fetch id)
      rcases hj.apart he hid hpos with ⟨hle, -⟩ | ⟨-, hstop⟩
      · exact hle
      · omega
    | stop _ _ _ => exact hj.le_length
  exact Nat.le_antisymm (hle h' h) (hle h h')

/-- Boundaries in their order belong to places in their order. -/
theorem FormerAt.mono {offset other : Int} {k l : Nat} (h : FormerAt p order offset k)
    (h' : FormerAt p order other l) (he : p.IsEdited order) (hle : offset ≤ other) : k ≤ l := by
  cases h' with
  | @start _ id hid hoffset hpos =>
    have hsize := p.sizeOf_pos (p.fetch id)
    rcases h.apart he hid hpos with ⟨hkl, -⟩ | ⟨-, hstop⟩
    · exact hkl
    · omega
  | stop _ _ _ => exact h.le_length

/-- What bounds an order belongs to a place of it. -/
theorem IsEdited.mem_formerBoundaries (he : p.IsEdited order) {offset : Int} (hpos : 0 ≤ offset) :
    offset ∈ p.formerBoundaries order ↔ ∃ k, FormerAt p order offset k := by
  obtain ⟨last, hlast, hposlast⟩ := he.last
  rw [formerBoundaries, hlast]
  simp only [List.mem_append, List.mem_map, Option.map_some, Option.toList_some,
    List.mem_singleton]
  constructor
  · rintro (⟨id, hid, rfl⟩ | rfl)
    · obtain ⟨place, hplace⟩ := List.mem_iff_getElem?.mp hid
      exact ⟨place, .start hplace rfl hpos⟩
    · exact ⟨order.length, .stop hlast rfl hposlast⟩
  · rintro ⟨k, hk⟩
    cases hk with
    | start hid h _ => exact Or.inl ⟨_, List.mem_of_getElem? hid, h⟩
    | stop hid h _ =>
      rw [hlast, Option.some.injEq] at hid
      subst hid
      exact Or.inr h.symm

/-! ### Where the instructions are then -/

/-- What settling leaves was placed last. -/
theorem exists_settle_eq_assign (fuel : Nat) (order : List Nat) (p : Pool) :
    ∃ placed : Pool, placed.size = p.size ∧ (p.settle fuel order).1 = (placed.assign order).1 := by
  induction fuel generalizing p with
  | zero => exact ⟨p, rfl, rfl⟩
  | succ fuel ih =>
    rw [settle]
    simp only
    split
    · obtain ⟨placed, hsize, h⟩ := ih ((p.assign order).1.widenFar order)
      exact ⟨placed, by rw [hsize, size_widenFar, (assign_sameCode p order).size_eq], h⟩
    · exact ⟨p, rfl, rfl⟩

/-- The instructions of an order that were laid out before start where their places do now. -/
def StandsIn (p q : Pool) (order : List Nat) : Prop :=
  ∀ ⦃place id : Nat⦄, order[place]? = some id → 0 ≤ (p.fetch id).offset →
    (q.fetch id).offset = (q.startIn order place : Int)

/-- Settling puts the instructions that were laid out before where their places start. New
instructions may stand in the order several times. -/
theorem IsEdited.standsIn_settle (he : p.IsEdited order) (hc : p.IsClosed order) (fuel : Nat) :
    p.StandsIn (p.settle fuel order).1 order := by
  intro place id hid hpos
  obtain ⟨placed, hsize, hsettle⟩ := exists_settle_eq_assign fuel order p
  have hlast : ∀ later, place < later → order[later]? ≠ some id := by
    intro later hlt hlater
    have := he.place_unique hid hlater hpos
    omega
  rw [hsettle, (placed.assign_sameCode order).startIn, assign, fetch_assignFrom_of_last hid hlast
    (by rw [hsize]; exact hc.inside id (List.mem_of_getElem? hid)), Nat.zero_add]

/-! ### Boundaries -/

/-- The former end of an edited order is the one of its last instruction. -/
theorem IsEdited.stop_eq (he : p.IsEdited order) {id : Nat} (hid : order.getLast? = some id) :
    (FormerPlaces.ofOrder p order).stop = (p.fetch id).offset + p.sizeOf (p.fetch id) := by
  obtain ⟨last, hlast, hpos⟩ := he.last
  rw [hid, Option.some.injEq] at hlast
  subst hlast
  simp only [FormerPlaces.ofOrder, hid, if_pos hpos]

/-- The offsets before and after, for each instruction. -/
theorem zip_offsets (p q : Pool) (order : List Nat) :
    (FormerPlaces.ofOrder p order).offsets.zip (order.map fun id => (q.fetch id).offset) =
      order.map fun id => ((p.fetch id).offset, (q.fetch id).offset) :=
  List.zip_map'

/-- What becomes of a former offset of an order. -/
def moved? (p q : Pool) (order : List Nat) : Int → Option Int :=
  (FormerPlaces.ofOrder p order).carry?
    ((FormerPlaces.ofOrder p order).offsets.zip (order.map fun id => (q.fetch id).offset))
    (q.startIn order order.length)

/-- A former offset other than the end becomes the new offset of an instruction that stood there, or
nothing when none did. -/
theorem moved?_of_ne_stop (p q : Pool) {order : List Nat} {old : Int} (hold : 0 ≤ old)
    (hne : old ≠ (FormerPlaces.ofOrder p order).stop) :
    (∃ id ∈ order, (p.fetch id).offset = old ∧
        p.moved? q order old = some (q.fetch id).offset) ∨
      (∀ id ∈ order, (p.fetch id).offset ≠ old) ∧ p.moved? q order old = none := by
  rw [moved?, FormerPlaces.carry?, zip_offsets, if_neg hne, if_neg (Int.not_lt.mpr hold)]
  cases hfound : (order.map fun id =>
      ((p.fetch id).offset, (q.fetch id).offset)).reverse.find?
        fun pair => decide (pair.1 = old) with
  | none =>
    refine Or.inr ⟨fun id hid heq => ?_, rfl⟩
    have hno := List.find?_eq_none.mp hfound ((p.fetch id).offset, (q.fetch id).offset)
      (List.mem_reverse.mpr (List.mem_map.mpr ⟨id, hid, rfl⟩))
    simp [heq] at hno
  | some pair =>
    have hmem := List.mem_reverse.mp (List.mem_of_find?_eq_some hfound)
    obtain ⟨id, hid, rfl⟩ := List.mem_map.mp hmem
    exact Or.inl ⟨id, hid, by simpa using List.find?_some hfound, rfl⟩

/-- A former boundary becomes the offset where its place starts now, and no other offset becomes
anything. -/
theorem IsEdited.moved?_eq_some_iff (he : p.IsEdited order) (hq : p.StandsIn q order)
    {old new : Int} (hold : 0 ≤ old) :
    p.moved? q order old = some new ↔
      ∃ k, FormerAt p order old k ∧ new = (q.startIn order k : Int) := by
  obtain ⟨last, hlast, hposlast⟩ := he.last
  have hstop : FormerAt p order (FormerPlaces.ofOrder p order).stop order.length :=
    .stop hlast (he.stop_eq hlast).symm hposlast
  by_cases hne : old = (FormerPlaces.ofOrder p order).stop
  · subst hne
    rw [moved?, FormerPlaces.carry?, if_pos rfl, Option.some.injEq]
    constructor
    · rintro rfl
      exact ⟨order.length, hstop, rfl⟩
    · rintro ⟨k, hk, rfl⟩
      rw [hk.unique hstop he]
  · rcases p.moved?_of_ne_stop q hold hne with ⟨id, hid, rfl, hmoved⟩ | ⟨hno, hnone⟩
    · obtain ⟨place, hplace⟩ := List.mem_iff_getElem?.mp hid
      have hat := FormerAt.start hplace rfl hold
      rw [hmoved, hq hplace hold, Option.some.injEq]
      constructor
      · rintro rfl
        exact ⟨place, hat, rfl⟩
      · rintro ⟨k, hk, rfl⟩
        rw [hk.unique hat he]
    · rw [hnone]
      constructor
      · rintro ⟨⟩
      · rintro ⟨k, hk, -⟩
        cases hk with
        | stop hid h _ => exact absurd (h.symm.trans (he.stop_eq hid).symm) hne
        | start hid h _ => exact absurd h (hno _ (List.mem_of_getElem? hid))

/-! ### Ranges -/

/-- An instruction lies in a range of offsets. -/
def LiesIn (p : Pool) (id : Nat) (start length : Int) : Prop :=
  start ≤ (p.fetch id).offset ∧
    (p.fetch id).offset + p.sizeOf (p.fetch id) ≤ start + length

/-- An instruction starts in a range of offsets. -/
def StartsIn (p : Pool) (id : Nat) (start length : Int) : Prop :=
  start ≤ (p.fetch id).offset ∧ (p.fetch id).offset < start + length

/-- A range of former offsets has become a range of new ones: the instructions that were laid out
before lie in it as before, and none sticks out. -/
structure RangeFollows (p q : Pool) (order : List Nat) (codeSize : Nat)
    (start length start' length' : Int) : Prop where
  /-- The same instructions lie in it. -/
  liesIn : ∀ id ∈ order, 0 ≤ (p.fetch id).offset →
    (q.LiesIn id start' length' ↔ p.LiesIn id start length)
  /-- The same instructions start in it. -/
  startsIn : ∀ id ∈ order, 0 ≤ (p.fetch id).offset →
    (q.StartsIn id start' length' ↔ p.StartsIn id start length)
  /-- It has a length. -/
  length_nonneg : 0 ≤ length'
  /-- It ends in the code. -/
  stop_le : start' + length' ≤ codeSize

/-- A range between two former boundaries becomes the range between their places. -/
theorem IsEdited.rangeFollows (he : p.IsEdited order) (hq : p.StandsIn q order)
    {start length : Int} {k l : Nat}
    (hstart : FormerAt p order start k) (hstop : FormerAt p order (start + length) l)
    (hlength : 0 ≤ length) :
    RangeFollows p q order (q.startIn order order.length) start length (q.startIn order k)
      (q.startIn order l - q.startIn order k) := by
  have hkl := hstart.mono hstop he (by omega)
  have hnew := startIn_le (p := q) order hkl
  have hend := startIn_le (p := q) order hstop.le_length
  -- Before and after, the instructions in the range are those from its first place up to its last.
  have hplaces : ∀ place id : Nat, order[place]? = some id → 0 ≤ (p.fetch id).offset →
      ((q.LiesIn id (q.startIn order k) (q.startIn order l - q.startIn order k) ↔
          p.LiesIn id start length) ∧
        (q.StartsIn id (q.startIn order k) (q.startIn order l - q.startIn order k) ↔
          p.StartsIn id start length)) := by
    intro place id hid hpos
    have hsize := p.sizeOf_pos (p.fetch id)
    have hsize' := q.sizeOf_pos (q.fetch id)
    have hnext := startIn_succ (p := q) hid
    have hafter := fun (j : Nat) (h : j ≤ place) => startIn_le (p := q) order h
    have hbefore := fun (j : Nat) (h : place < j) =>
      startIn_le (p := q) order (show place + 1 ≤ j from h)
    unfold LiesIn StartsIn
    rw [hq hid hpos]
    rcases hstart.apart he hid hpos with ⟨hk, hk'⟩ | ⟨hk, hk'⟩ <;>
      rcases hstop.apart he hid hpos with ⟨hl, hl'⟩ | ⟨hl, hl'⟩
    · have := hafter k hk
      have := hafter l hl
      omega
    · have := hafter k hk
      have := hbefore l hl
      omega
    · have := hbefore k hk
      have := hafter l hl
      omega
    · have := hbefore k hk
      have := hbefore l hl
      omega
  refine ⟨fun id hid hpos => ?_, fun id hid hpos => ?_, by omega, by omega⟩
  · obtain ⟨place, hplace⟩ := List.mem_iff_getElem?.mp hid
    exact (hplaces place id hplace hpos).1
  · obtain ⟨place, hplace⟩ := List.mem_iff_getElem?.mp hid
    exact (hplaces place id hplace hpos).2

end Pool

/-! ### Clauses -/

/-- What a clause over an edited order has become. -/
structure Clause.Follows (p q : Pool) (order : List Nat) (codeSize : Nat) (c c' : Clause) :
    Prop where
  /-- It is of the same kind. -/
  flags_eq : c'.flags = c.flags
  /-- It guards the same instructions. -/
  guarded : Pool.RangeFollows p q order codeSize c.tryOffset c.tryLength c'.tryOffset c'.tryLength
  /-- The same instructions handle what is thrown there. -/
  handler : Pool.RangeFollows p q order codeSize c.handlerOffset c.handlerLength c'.handlerOffset
    c'.handlerLength
  /-- Its filter starts at the same instruction. -/
  filterStart : c.flags = Clause.filter → ∀ id ∈ order, (p.fetch id).offset = c.token →
    c'.token = (q.fetch id).offset
  /-- A filter at the former end is one at the new end. -/
  filterStop : c.flags = Clause.filter → ∀ id, order.getLast? = some id →
    (p.fetch id).offset + p.sizeOf (p.fetch id) = c.token → c'.token = codeSize
  /-- What else it catches stays. -/
  token_eq : c.flags ≠ Clause.filter → c'.token = c.token

/-- A clause is carried over boundary by boundary. -/
theorem Clause.carry?_eq_some_iff {carry : Int → Option Int} {c c' : Clause} :
    c.carry? carry = some c' ↔
      c'.flags = c.flags ∧ carry c.tryOffset = some c'.tryOffset ∧
        carry (c.tryOffset + c.tryLength) = some (c'.tryOffset + c'.tryLength) ∧
        carry c.handlerOffset = some c'.handlerOffset ∧
        carry (c.handlerOffset + c.handlerLength) = some (c'.handlerOffset + c'.handlerLength) ∧
        (if c.flags = Clause.filter then carry c.token else some c.token) = some c'.token := by
  have hcases : c.carry? carry = (carry c.tryOffset).bind fun tryStart =>
      (carry (c.tryOffset + c.tryLength)).bind fun tryStop =>
      (carry c.handlerOffset).bind fun handlerStart =>
      (carry (c.handlerOffset + c.handlerLength)).bind fun handlerStop =>
      (if c.flags = filter then carry c.token else some c.token).bind fun token =>
      some ⟨c.flags, tryStart, tryStop - tryStart, handlerStart, handlerStop - handlerStart,
        token⟩ := by
    by_cases hf : c.flags = filter <;> simp only [carry?, hf] <;> rfl
  simp only [hcases, Option.bind_eq_some_iff]
  constructor
  · rintro ⟨tryStart, h1, tryStop, h2, handlerStart, h3, handlerStop, h4, token, h5, ⟨⟩⟩
    refine ⟨rfl, h1, ?_, h3, ?_, h5⟩
    · rw [h2, add_sub_cancel]
    · rw [h4, add_sub_cancel]
  · rintro ⟨hflags, h1, h2, h3, h4, h5⟩
    refine ⟨_, h1, _, h2, _, h3, _, h4, _, h5, ?_⟩
    rw [← hflags, add_sub_cancel_left, add_sub_cancel_left]

/-- A clause whose boundaries are former boundaries of an edited order follows its instructions. -/
theorem Pool.IsEdited.clause_follows {p q : Pool} {order : List Nat} (he : p.IsEdited order)
    (hq : p.StandsIn q order) {c : Clause} (hn : ∀ field ∈ c.fields, 0 ≤ field)
    (hb : ∀ offset ∈ c.boundaries, offset ∈ p.formerBoundaries order) :
    ∃ c', c.carry? (p.moved? q order) = some c' ∧
      c.Follows p q order (q.startIn order order.length) c' := by
  have hplace : ∀ offset ∈ c.boundaries, ∃ k, FormerAt p order offset k ∧
      p.moved? q order offset = some (q.startIn order k : Int) := by
    intro offset ho
    have hpos := Clause.boundaries_nonneg hn offset ho
    obtain ⟨k, hk⟩ := (he.mem_formerBoundaries hpos).mp (hb offset ho)
    exact ⟨k, hk, (he.moved?_eq_some_iff hq hpos).mpr ⟨k, hk, rfl⟩⟩
  obtain ⟨k, hk, htry⟩ := hplace c.tryOffset (by simp [Clause.boundaries])
  obtain ⟨l, hl, htryStop⟩ := hplace (c.tryOffset + c.tryLength) (by simp [Clause.boundaries])
  obtain ⟨m, hm, hhandler⟩ := hplace c.handlerOffset (by simp [Clause.boundaries])
  obtain ⟨n, hn', hhandlerStop⟩ :=
    hplace (c.handlerOffset + c.handlerLength) (by simp [Clause.boundaries])
  have hguarded := he.rangeFollows hq hk hl (hn _ (by simp [Clause.fields]))
  have hhandled := he.rangeFollows hq hm hn' (hn _ (by simp [Clause.fields]))
  by_cases hf : c.flags = Clause.filter
  · obtain ⟨t, ht, htoken⟩ := hplace c.token (by simp [Clause.boundaries, hf])
    refine ⟨⟨c.flags, q.startIn order k, q.startIn order l - q.startIn order k, q.startIn order m,
      q.startIn order n - q.startIn order m, q.startIn order t⟩, ?_, rfl, hguarded, hhandled,
      ?_, ?_, fun h => absurd hf h⟩
    · rw [Clause.carry?_eq_some_iff, if_pos hf]
      simp only [add_sub_cancel]
      exact ⟨trivial, htry, htryStop, hhandler, hhandlerStop, htoken⟩
    · intro _ id hid hoffset
      obtain ⟨place, hplace⟩ := List.mem_iff_getElem?.mp hid
      have hpos : 0 ≤ (p.fetch id).offset := by
        rw [hoffset]
        exact hn _ (by simp [Clause.fields])
      rw [hq hplace hpos, ht.unique (.start hplace hoffset hpos) he]
    · intro _ id hid hoffset
      obtain ⟨last, hlast, hpos⟩ := he.last
      rw [hid, Option.some.injEq] at hlast
      subst hlast
      rw [ht.unique (.stop hid hoffset hpos) he]
  · refine ⟨⟨c.flags, q.startIn order k, q.startIn order l - q.startIn order k, q.startIn order m,
      q.startIn order n - q.startIn order m, c.token⟩, ?_, rfl, hguarded, hhandled,
      fun h => absurd h hf, fun h => absurd h hf, fun _ => rfl⟩
    rw [Clause.carry?_eq_some_iff, if_neg hf]
    simp only [add_sub_cancel]
    exact ⟨trivial, htry, htryStop, hhandler, hhandlerStop, trivial⟩

/-- A clause with another boundary is not carried over. -/
theorem Pool.IsEdited.clause_dropped {p q : Pool} {order : List Nat} (he : p.IsEdited order)
    (hq : p.StandsIn q order) {c : Clause} (hn : ∀ field ∈ c.fields, 0 ≤ field) {offset : Int}
    (ho : offset ∈ c.boundaries) (hnot : offset ∉ p.formerBoundaries order) :
    c.carry? (p.moved? q order) = none := by
  have hpos := Clause.boundaries_nonneg hn offset ho
  refine Clause.carry?_eq_none ho (Option.eq_none_iff_forall_ne_some.mpr fun new hnew => hnot ?_)
  obtain ⟨k, hk, -⟩ := (he.moved?_eq_some_iff hq hpos).mp hnew
  exact (he.mem_formerBoundaries hpos).mpr ⟨k, hk⟩

/-- Laying an edited order out keeps the clauses whose boundaries are former boundaries of it, in
their order and over the same instructions, and drops the others. -/
theorem layOut_keeps_clauses {p : Pool} {order : List Nat} {clauses : List Clause}
    (hclosed : p.IsClosed order) (hedited : p.IsEdited order)
    (hfields : ∀ c ∈ clauses, ∀ field ∈ c.fields, 0 ≤ field) :
    ∃ layout q lines, layOut order clauses p = ⟨.ok layout, q, lines⟩ ∧
      layout.codeSize = q.startIn order order.length ∧
      List.Forall₂ (Clause.Follows p q order layout.codeSize)
        (clauses.filter fun c => c.boundaries.all (· ∈ p.formerBoundaries order))
        layout.clauses ∧
      layout.dropped =
        clauses.filter fun c => c.boundaries.any (· ∉ p.formerBoundaries order) := by
  have hq := hedited.standsIn_settle hclosed (p.shortBranches order)
  generalize hsettled : (p.settle (p.shortBranches order) order).1 = q at hq
  have hkept : ∀ c ∈ clauses, c.boundaries.all (· ∈ p.formerBoundaries order) →
      ∃ c', c.carry? (p.moved? q order) = some c' ∧
        c.Follows p q order (q.startIn order order.length) c' := by
    intro c hc hall
    exact hedited.clause_follows hq (hfields c hc) (by simpa using hall)
  have hdropped : ∀ c ∈ clauses, c.boundaries.all (· ∈ p.formerBoundaries order) = false →
      c.carry? (p.moved? q order) = none := by
    intro c hc hnot
    obtain ⟨offset, ho, hno⟩ : ∃ offset ∈ c.boundaries, offset ∉ p.formerBoundaries order := by
      simpa using hnot
    exact hedited.clause_dropped hq (hfields c hc) ho hno
  have hout := hclosed.layOut_eq clauses
  rw [hsettled] at hout
  refine ⟨_, q, _, hout, rfl, Sequence.forall₂_filter_filterMap hkept hdropped, ?_⟩
  apply List.filter_congr
  intro c hc
  change (c.carry? (p.moved? q order)).isNone = _
  by_cases hall : c.boundaries.all (· ∈ p.formerBoundaries order)
  · obtain ⟨c', hc', -⟩ := hkept c hc hall
    simpa [hc'] using hall
  · rw [Bool.not_eq_true] at hall
    rw [hdropped c hc hall]
    simpa using hall

/-- An instruction was taken out at 1 and two tables were put in, the second one after a branch that
becomes long for it. A clause over the branch ends before what followed it, a filter stands there
and another one at the end, and a clause from the instruction that is gone is dropped. -/
theorem layOut_keeps_clauses_of_edits :
    let table : Instruction := ⟨⟨0x45, "switch", .switch, some 1, some 0, .condBranch⟩,
      .targets (List.replicate 31 4), -1, -1⟩
    let p : Pool := #[⟨.nop, .nothing, 0, 0⟩, table,
      ⟨⟨0x2B, "br.s", .shortBranch, some 0, some 0, .branch⟩, .target 5, 3, 2⟩, table,
      ⟨.nop, .nothing, 5, 3⟩,
      ⟨⟨0x2A, "ret", .nothing, some 0, some 0, .returns⟩, .nothing, 6, 4⟩]
    let order := List.range 6
    let clauses : List Clause := [⟨0, 0, 5, 5, 2, 0x01000001⟩, ⟨1, 3, 2, 6, 1, 5⟩,
      ⟨2, 1, 4, 5, 2, 0⟩, ⟨1, 0, 7, 6, 1, 7⟩]
    let kept : List Clause := [⟨0, 0, 264, 264, 2, 0x01000001⟩, ⟨1, 130, 134, 265, 1, 264⟩,
      ⟨1, 0, 266, 265, 1, 266⟩]
    p.IsClosed order ∧ p.IsEdited order ∧
      ∃ layout q lines, layOut order clauses p = ⟨.ok layout, q, lines⟩ ∧
        layout = ⟨266, kept, [⟨2, 1, 4, 5, 2, 0⟩]⟩ ∧
        List.Forall₂ (Clause.Follows p q order 266)
          [⟨0, 0, 5, 5, 2, 0x01000001⟩, ⟨1, 3, 2, 6, 1, 5⟩, ⟨1, 0, 7, 6, 1, 7⟩] kept := by
  intro table p order clauses kept
  have hclosed : p.IsClosed order :=
    ⟨by decide, by unfold Pool.IsDefined; decide +kernel, by decide, by decide, by decide +kernel⟩
  have hedited : p.IsEdited order := ⟨by decide +kernel, 5, by decide, by decide⟩
  have hfields : ∀ c ∈ clauses, ∀ field ∈ c.fields, 0 ≤ field := by decide
  obtain ⟨layout, q, lines, hout, -, hfollows, -⟩ := layOut_keeps_clauses hclosed hedited hfields
  have hrun : (layOut order clauses p).result.toOption =
      some ⟨266, kept, [⟨2, 1, 4, 5, 2, 0⟩]⟩ := by
    decide +kernel
  rw [hout] at hrun
  simp only [Except.toOption, Option.some.injEq] at hrun
  subst hrun
  refine ⟨hclosed, hedited, _, q, lines, hout, rfl, ?_⟩
  have hfilter : clauses.filter (fun c => c.boundaries.all (· ∈ p.formerBoundaries order)) =
      [⟨0, 0, 5, 5, 2, 0x01000001⟩, ⟨1, 3, 2, 6, 1, 5⟩, ⟨1, 0, 7, 6, 1, 7⟩] := by
    decide +kernel
  rwa [hfilter] at hfollows

end CilRestore
