import Mathlib.Data.List.Induction
import CilRestore.Body.StackDepth
import CilRestore.Proofs.Sequence

/-!
# Control flow of an order

Where control goes from each place of an order, and where the runtime enters it. An instruction that
an order holds several times is gone to at its last place, and an offset names the last place that
is laid out there. What an instruction does to the stack is known unless it calls a method that is
named through itself (`Instruction.exists_stackEffect_iff`). A depth on entry is assigned to each
place consistently (`IsDepth`) when the runtime provides it where it enters and each edge carries it
over.
-/

namespace CilRestore

/-- What an instruction does to the stack is left to the signature of its callee, and the callee is
named through itself. A file cannot name one so: what the rows of an opened module name is never
`circular` (`ModuleRows.callee_ne_circular`), and decoded code holds no such instruction
(`DecodesTo.isWalkable`). -/
def Instruction.HasCircularCallee (i : Instruction) : Prop :=
  ¬ (i.opcode.pops.isSome = true ∧ i.opcode.pushes.isSome = true) ∧ i.operand.callee = .circular

instance (i : Instruction) : Decidable i.HasCircularCallee :=
  inferInstanceAs (Decidable (_ ∧ _))

/-- What an instruction does to the stack is known, unless its callee is named through itself. -/
theorem Instruction.exists_stackEffect_iff {i : Instruction} :
    (∃ effect, i.stackEffect = .ok effect) ↔ ¬ i.HasCircularCallee := by
  rw [stackEffect, HasCircularCallee, not_and', not_not]
  split
  · rename_i pops pushes hpops hpushes
    exact iff_of_true ⟨_, rfl⟩ fun _ => ⟨by rw [hpops]; rfl, by rw [hpushes]; rfl⟩
  · rename_i hopen
    have hnot : ¬ (i.opcode.pops.isSome = true ∧ i.opcode.pushes.isSome = true) := by
      rintro ⟨hpops, hpushes⟩
      obtain ⟨pops, hpops⟩ := Option.isSome_iff_exists.mp hpops
      obtain ⟨pushes, hpushes⟩ := Option.isSome_iff_exists.mp hpushes
      exact hopen pops pushes hpops hpushes
    rw [imp_iff_not hnot]
    cases i.operand.callee with
    | circular => simp
    | unknown => exact iff_of_true ⟨_, rfl⟩ (by simp)
    | known signature =>
      refine iff_of_true ?_ (by simp)
      dsimp only
      split
      · exact ⟨_, rfl⟩
      · split <;> exact ⟨_, rfl⟩

namespace StackDepth

/-- The last place of an order whose instruction has a property. -/
structure IsLast (order : List Nat) (P : Nat → Prop) (place : Nat) : Prop where
  /-- The instruction there has it. -/
  holds : ∃ id, order[place]? = some id ∧ P id
  /-- No later one has it. -/
  last : ∀ later id, place < later → order[later]? = some id → ¬ P id

/-- Control goes from a place to another one. -/
inductive Goes (p : Pool) (order : List Nat) (place next : Nat) : Prop
  /-- An instruction that does not end the block is followed by the next one. -/
  | onward {id : Nat} (hid : order[place]? = some id)
      (hopen : (p.fetch id).opcode.endsBlock = false) (hnext : next = place + 1)
      (hlt : next < order.length)
  /-- A branch or a switch goes to its targets. -/
  | jump {id target : Nat} (hid : order[place]? = some id)
      (htarget : target ∈ (p.fetch id).targets) (hnext : IsLast order (· = target) next)

/-- The runtime enters an order at a place, with as many slots on the stack. -/
inductive Enters (p : Pool) (order : List Nat) (clauses : List Clause) : Nat → Nat → Prop
  /-- A method starts at its first instruction. -/
  | first (hne : order ≠ []) : Enters p order clauses 0 0
  /-- A handler starts with the exception, or with nothing when it always runs. -/
  | handler {clause : Clause} {place : Nat} (hc : clause ∈ clauses)
      (hplace : IsLast order (fun id => (p.fetch id).offset = clause.handlerOffset) place) :
      Enters p order clauses place clause.handlerDepth
  /-- A filter starts with the exception. -/
  | filter {clause : Clause} {place : Nat} (hc : clause ∈ clauses)
      (hf : clause.flags = Clause.filter)
      (hplace : IsLast order (fun id => (p.fetch id).offset = clause.token) place) :
      Enters p order clauses place 1

/-- A place is reached from where the runtime enters. -/
inductive Reaches (p : Pool) (order : List Nat) (clauses : List Clause) : Nat → Prop
  | enter {place depth : Nat} (h : Enters p order clauses place depth) :
      Reaches p order clauses place
  | go {place next : Nat} (h : Reaches p order clauses place) (hgo : Goes p order place next) :
      Reaches p order clauses next

/-- Depths on entry to the places of an order that fit together. -/
structure IsDepth (p : Pool) (order : List Nat) (clauses : List Clause) (depth : Nat → Nat) :
    Prop where
  /-- Where the runtime enters, it provides the depth. -/
  enters : ∀ place d, Enters p order clauses place d → depth place = d
  /-- Along an edge the instruction takes and leaves its slots. -/
  goes : ∀ place next id effect, Goes p order place next → order[place]? = some id →
    (p.fetch id).stackEffect = .ok effect →
    depth next = depthOnward (p.fetch id) (depthAfter effect (depth place))

/-- The branches of an order go to its own instructions, and no callee is named through itself. -/
structure IsWalkable (p : Pool) (order : List Nat) : Prop where
  /-- The instructions belong to the pool. -/
  bound : ∀ id ∈ order, id < p.size
  /-- A branch has a target. -/
  aims : ∀ id ∈ order, (p.fetch id).isDangling = false
  /-- A switch has a table. -/
  tabled : ∀ id ∈ order, (p.fetch id).lacksTable = false
  /-- Targets belong to the order. -/
  closed : ∀ id ∈ order, ∀ target ∈ (p.fetch id).targets, target ∈ order
  /-- What a call does to the stack can be told. -/
  acyclic : ∀ id ∈ order, ¬ (p.fetch id).HasCircularCallee

variable {p : Pool} {order : List Nat} {clauses : List Clause}

/-- In an order that can be walked over every instruction has an effect. -/
theorem IsWalkable.exists_effect (h : IsWalkable p order) {place id : Nat}
    (hid : order[place]? = some id) : ∃ effect, (p.fetch id).stackEffect = .ok effect :=
  Instruction.exists_stackEffect_iff.mpr (h.acyclic id (List.mem_of_getElem? hid))

/-! ### Last places -/

/-- There is one last place at most. -/
theorem IsLast.unique {P : Nat → Prop} {place other : Nat} (h : IsLast order P place)
    (h' : IsLast order P other) : place = other := by
  obtain ⟨id, hid, hP⟩ := h.holds
  obtain ⟨id', hid', hP'⟩ := h'.holds
  rcases Nat.lt_trichotomy place other with hlt | heq | hlt
  · exact absurd hP' (h.last other id' hlt hid')
  · exact heq
  · exact absurd hP (h'.last place id hlt hid)

theorem IsLast.lt {P : Nat → Prop} {place : Nat} (h : IsLast order P place) :
    place < order.length := by
  obtain ⟨id, hid, _⟩ := h.holds
  exact (List.getElem?_eq_some_iff.mp hid).1

/-- The last place is found by going backwards. -/
theorem find?_reverse_range {n place : Nat} {f : Nat → Bool} :
    (List.range n).reverse.find? f = some place ↔
      place < n ∧ f place = true ∧ ∀ later, place < later → later < n → f later = false := by
  induction n with
  | zero => simp
  | succ n ih =>
    rw [List.range_succ, List.reverse_append, List.reverse_singleton, List.singleton_append]
    cases hn : f n with
    | true =>
      rw [List.find?_cons_of_pos hn, Option.some.injEq]
      constructor
      · rintro rfl
        exact ⟨by omega, hn, fun later h h' => by omega⟩
      · rintro ⟨hlt, _, hlater⟩
        by_contra hne
        rw [hlater n (by omega) (by omega)] at hn
        cases hn
    | false =>
      rw [List.find?_cons_of_neg (by simp [hn]), ih]
      constructor
      · rintro ⟨hlt, hf, hlater⟩
        refine ⟨by omega, hf, fun later h h' => ?_⟩
        rcases Nat.lt_succ_iff_lt_or_eq.mp h' with h' | rfl
        · exact hlater later h h'
        · exact hn
      · rintro ⟨hlt, hf, hlater⟩
        have hne : place ≠ n := by
          rintro rfl
          rw [hn] at hf
          cases hf
        exact ⟨by omega, hf, fun later h h' => hlater later h (by omega)⟩

/-- Whether a place is the last one can be checked place by place. -/
theorem isLast_iff {P : Nat → Prop} [DecidablePred P] {place : Nat} :
    IsLast order P place ↔
      place < order.length ∧ decide (P (order.getD place 0)) = true ∧
        ∀ later, place < later → later < order.length →
          decide (P (order.getD later 0)) = false := by
  constructor
  · rintro ⟨⟨id, hid, hP⟩, hlast⟩
    refine ⟨(List.getElem?_eq_some_iff.mp hid).1, ?_, fun later hlt hlen => ?_⟩
    · rw [List.getD_eq_getElem?_getD, hid]
      exact decide_eq_true hP
    · refine decide_eq_false (hlast later _ hlt ?_)
      rw [List.getD_eq_getElem?_getD, List.getElem?_eq_getElem hlen, Option.getD_some]
  · rintro ⟨hlt, hP, hlast⟩
    refine ⟨⟨order.getD place 0, ?_, of_decide_eq_true hP⟩, fun later id hl hid => ?_⟩
    · rw [List.getD_eq_getElem?_getD, List.getElem?_eq_getElem hlt, Option.getD_some]
    · have h := hlast later hl (List.getElem?_eq_some_iff.mp hid).1
      rw [List.getD_eq_getElem?_getD, hid] at h
      exact of_decide_eq_false h

/-- The last places of some instructions. -/
theorem mem_lasts_iff {ids lasts : List Nat}
    (h : List.Forall₂ (fun id => IsLast order (· = id)) ids lasts) (place : Nat) :
    place ∈ lasts ↔ ∃ id ∈ ids, IsLast order (· = id) place := by
  constructor
  · intro hplace
    exact Sequence.exists_mem_of_forall₂ h.flip hplace
  · rintro ⟨id, hid, hlast⟩
    obtain ⟨other, hother, hlast'⟩ := Sequence.exists_mem_of_forall₂ h hid
    rwa [hlast.unique hlast']

/-- A property that holds somewhere in an order holds at a last place of it. -/
theorem exists_isLast {P : Nat → Prop} {id : Nat} (hid : id ∈ order) (hP : P id) :
    ∃ place, IsLast order P place := by
  classical
  obtain ⟨start, hstart⟩ := List.mem_iff_getElem?.mp hid
  have hlt := (List.getElem?_eq_some_iff.mp hstart).1
  have hsome : ((List.range order.length).reverse.find? fun place =>
      decide (P (order.getD place 0))).isSome = true := by
    rw [List.find?_isSome]
    refine ⟨start, by simpa using hlt, ?_⟩
    rw [List.getD_eq_getElem?_getD, hstart]
    exact decide_eq_true hP
  obtain ⟨place, hplace⟩ := Option.isSome_iff_exists.mp hsome
  exact ⟨place, isLast_iff.mpr (find?_reverse_range.mp hplace)⟩

/-- The last place of an instruction once another one has been put behind an order. -/
theorem isLast_append_singleton {id x place : Nat} :
    IsLast (order ++ [x]) (· = id) place ↔
      if x = id then place = order.length else IsLast order (· = id) place := by
  have hget : ∀ other, other < order.length → (order ++ [x])[other]? = order[other]? :=
    fun other h => List.getElem?_append_left h
  have hend : (order ++ [x])[order.length]? = some x := by simp
  split
  · rename_i hx
    subst hx
    constructor
    · intro h
      have hlt := h.lt
      rw [List.length_append, List.length_singleton] at hlt
      by_contra hne
      exact h.last order.length x (by omega) hend rfl
    · rintro rfl
      refine ⟨⟨x, hend, rfl⟩, fun later y hlt hy => ?_⟩
      have h := (List.getElem?_eq_some_iff.mp hy).1
      rw [List.length_append, List.length_singleton] at h
      omega
  · rename_i hx
    constructor
    · rintro ⟨⟨y, hy, rfl⟩, hlast⟩
      have hlt := (List.getElem?_eq_some_iff.mp hy).1
      have hne : place ≠ order.length := by
        rintro rfl
        rw [hend, Option.some.injEq] at hy
        exact hx hy
      rw [List.length_append, List.length_singleton] at hlt
      rw [hget place (by omega)] at hy
      refine ⟨⟨y, hy, rfl⟩, fun later z hl hz => hlast later z hl ?_⟩
      rw [hget later (List.getElem?_eq_some_iff.mp hz).1, hz]
    · rintro ⟨⟨y, hy, rfl⟩, hlast⟩
      refine ⟨⟨y, ?_, rfl⟩, fun later z hl hz => ?_⟩
      · rw [hget place (List.getElem?_eq_some_iff.mp hy).1, hy]
      · by_cases hlt : later < order.length
        · rw [hget later hlt] at hz
          exact hlast later z hl hz
        · have h := (List.getElem?_eq_some_iff.mp hz).1
          rw [List.length_append, List.length_singleton] at h
          rw [show later = order.length by omega, hend, Option.some.injEq] at hz
          rw [← hz]
          exact hx

/-! ### What the walk goes over -/

namespace Code

@[simp] theorem size_ofOrder : (ofOrder p order).size = order.length := by
  simp [ofOrder, size]

/-- The code has the instructions of the pool in their order. -/
theorem fetch_ofOrder (place : Nat) :
    (ofOrder p order).fetch place = p.fetch (order.getD place 0) := by
  simp [ofOrder, fetch, Array.getD_eq_getD_getElem?, List.getD_eq_getElem?_getD]

theorem fetch_of_getElem? {place id : Nat} (h : order[place]? = some id) :
    (ofOrder p order).fetch place = p.fetch id := by
  rw [fetch_ofOrder, List.getD_eq_getElem?_getD, h, Option.getD_some]

/-- An offset leads to the last place of an instruction that has it. -/
theorem placeAt?_eq_some {offset : Int} {place : Nat} :
    (ofOrder p order).placeAt? offset = some place ↔
      IsLast order (fun id => (p.fetch id).offset = offset) place := by
  simp only [placeAt?, size_ofOrder, find?_reverse_range, isLast_iff, fetch_ofOrder]

/-- The table holds the last place of each instruction of an order. -/
theorem places_ofOrder {id : Nat} (hid : id < p.size) {place : Nat} :
    (ofOrder p order).places.getD id none = some place ↔ IsLast order (· = id) place := by
  have hspec : ∀ order : List Nat,
      (ofOrder p order).places.size = p.size ∧ ∀ place,
        ((ofOrder p order).places.getD id none = some place ↔ IsLast order (· = id) place) := by
    intro order
    induction order using List.reverseRecOn with
    | nil =>
      refine ⟨by simp [ofOrder], fun place => ?_⟩
      simp [ofOrder, isLast_iff, Array.getD_eq_getD_getElem?, hid]
    | append_singleton order x ih =>
      obtain ⟨hsize, hplaces⟩ := ih
      have hput : (ofOrder p (order ++ [x])).places =
          (ofOrder p order).places.setIfInBounds x (some order.length) := by
        simp [ofOrder, List.zipIdx_append, List.foldl_append]
      refine ⟨by rw [hput, Array.size_setIfInBounds, hsize], fun place => ?_⟩
      rw [hput, isLast_append_singleton, Array.getD_eq_getD_getElem?,
        Array.getElem?_setIfInBounds, ← hplaces place, Array.getD_eq_getD_getElem?]
      by_cases hx : x = id
      · rw [if_pos hx, if_pos hx, if_pos (by omega), Option.getD_some, Option.some.injEq]
        exact eq_comm
      · rw [if_neg hx, if_neg hx]
  exact (hspec order).2 place

/-- The targets of an instruction are found at their last places. -/
theorem targets_ofOrder (h : IsWalkable p order) {place id : Nat} (hid : order[place]? = some id) :
    ∃ targets, (ofOrder p order).targets (p.fetch id) = .ok targets ∧
      List.Forall₂ (fun target => IsLast order (· = target)) (p.fetch id).targets targets := by
  have hm := List.mem_of_getElem? hid
  have hplace : ∀ target ∈ (p.fetch id).targets, ∃ next,
      (ofOrder p order).placeOf target = .ok next ∧ IsLast order (· = target) next := by
    intro target ht
    obtain ⟨next, hnext⟩ := exists_isLast (P := (· = target)) (h.closed id hm target ht) rfl
    refine ⟨next, ?_, hnext⟩
    have hto := (places_ofOrder (h.bound target (h.closed id hm target ht))).mpr hnext
    rw [placeOf, hto]
  obtain ⟨targets, htargets⟩ := Sequence.exists_forall₂ hplace
  refine ⟨targets, ?_, htargets.imp fun _ _ hboth => hboth.2⟩
  rw [Code.targets, h.aims id hm, h.tabled id hm]
  exact Sequence.mapM_eq_ok.mpr (htargets.imp fun _ _ hboth => hboth.1)

end Code

/-- Control stays in the code. -/
theorem Goes.lt {place next : Nat} (h : Goes p order place next) : next < order.length := by
  cases h with
  | onward _ _ _ hlt => exact hlt
  | jump _ _ hnext => exact hnext.lt

/-- From an instruction control goes to the next one, unless it ends its block, and to its targets.
-/
theorem goes_iff {place id : Nat} (hid : order[place]? = some id) {next : Nat} :
    Goes p order place next ↔
      (p.fetch id).opcode.endsBlock = false ∧ next = place + 1 ∧ next < order.length ∨
        ∃ target ∈ (p.fetch id).targets, IsLast order (· = target) next := by
  constructor
  · intro h
    cases h with
    | onward hid' hopen hnext hlt =>
      rw [hid, Option.some.injEq] at hid'
      exact Or.inl ⟨hid' ▸ hopen, hnext, hlt⟩
    | jump hid' htarget hnext =>
      rw [hid, Option.some.injEq] at hid'
      exact Or.inr ⟨_, hid' ▸ htarget, hnext⟩
  · rintro (⟨hopen, hnext, hlt⟩ | ⟨target, htarget, hnext⟩)
    · exact .onward hid hopen hnext hlt
    · exact .jump hid htarget hnext

theorem Enters.lt {place depth : Nat} (h : Enters p order clauses place depth) :
    place < order.length := by
  cases h with
  | first hne => exact List.length_pos_iff.mpr hne
  | handler _ hplace => exact hplace.lt
  | filter _ _ hplace => exact hplace.lt

/-- The walk starts where the runtime enters. -/
theorem mem_entries (hne : order ≠ []) {x : Nat × Nat} :
    x ∈ entries (Code.ofOrder p order) clauses ↔ Enters p order clauses x.1 x.2 := by
  simp only [entries, List.mem_cons, List.mem_flatMap, List.mem_append, Option.mem_toList,
    Option.map_eq_some_iff, Code.placeAt?_eq_some]
  constructor
  · rintro (rfl | ⟨clause, hc, ⟨place, hplace, rfl⟩ | hfilter⟩)
    · exact .first hne
    · exact .handler hc hplace
    · split at hfilter
      · rename_i hf
        obtain ⟨place, hplace, rfl⟩ := by
          simpa only [Option.mem_toList, Option.mem_def, Option.map_eq_some_iff,
            Code.placeAt?_eq_some] using hfilter
        exact .filter hc hf hplace
      · cases hfilter
  · obtain ⟨place, depth⟩ := x
    intro h
    cases h with
    | first _ => exact Or.inl rfl
    | handler hc hplace => exact Or.inr ⟨_, hc, Or.inl ⟨place, hplace, rfl⟩⟩
    | filter hc hf hplace =>
      refine Or.inr ⟨_, hc, Or.inr ?_⟩
      rw [if_pos hf]
      simpa only [Option.mem_toList, Option.mem_def, Option.map_eq_some_iff,
        Code.placeAt?_eq_some] using ⟨place, hplace, rfl⟩

/-! ### Checking depths -/

/-- Whether depths fit together along the edges that leave a place. -/
def fitsAt (c : Code) (depth : Nat → Nat) (place : Nat) : Bool :=
  match (c.fetch place).stackEffect, c.targets (c.fetch place) with
  | .ok effect, .ok targets =>
    (if (c.fetch place).opcode.endsBlock || c.size ≤ place + 1 then targets
      else (place + 1) :: targets).all fun next =>
        depth next == depthOnward (c.fetch place) (depthAfter effect (depth place))
  | _, _ => false

/-- Depths can be checked place by place. -/
theorem isDepth_of_fitsAt {depth : Nat → Nat} (hw : IsWalkable p order) (hne : order ≠ [])
    (hentries : ∀ x ∈ entries (Code.ofOrder p order) clauses, depth x.1 = x.2)
    (hplaces : ∀ place < order.length, fitsAt (Code.ofOrder p order) depth place = true) :
    IsDepth p order clauses depth := by
  refine ⟨fun place d h => hentries (place, d) ((mem_entries hne).mpr h), ?_⟩
  intro place next id effect hgoes hid heffect
  have hfits := hplaces place (List.getElem?_eq_some_iff.mp hid).1
  obtain ⟨targets, htargets, hlasts⟩ := Code.targets_ofOrder hw hid
  rw [fitsAt, Code.fetch_of_getElem? hid, heffect, htargets] at hfits
  simp only [List.all_eq_true, beq_iff_eq, Code.size_ofOrder] at hfits
  refine hfits next ?_
  rcases (goes_iff hid).mp hgoes with ⟨hopen, rfl, hlt⟩ | hjump
  · rw [hopen, Bool.false_or, if_neg (by simpa using hlt)]
    exact List.mem_cons_self
  · have hnext := (mem_lasts_iff hlasts next).mpr hjump
    split
    · exact hnext
    · exact List.mem_cons_of_mem _ hnext

end StackDepth

end CilRestore
