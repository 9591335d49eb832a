import CilRestore.Body.Clause
import CilRestore.Instruction.Basic

/-!
# Stack depth

The deepest evaluation stack of a method, found by walking its control flow. Each instruction is
visited once, with the depth of the path that comes first: the path that was found last goes on
first. Handlers and filters start with what the runtime puts on the stack. Code that nothing reaches
is walked as well, from a depth of one.
-/

namespace CilRestore.StackDepth

-- Sums of numbers are those of the core library, whatever else is imported.
attribute [local instance (high)] Zero.ofOfNat0

/-- What the walk goes over: an order of a pool and the place of each instruction in it. -/
structure Code where
  /-- The instructions. -/
  pool : Pool
  /-- The order. -/
  order : Array Nat
  /-- The place of each instruction in the order, the last one of several. -/
  places : Array (Option Nat)

namespace Code

/-- The code of an order. -/
def ofOrder (p : Pool) (order : List Nat) : Code where
  pool := p
  order := order.toArray
  places := order.zipIdx.foldl (fun places (id, place) => places.setIfInBounds id (some place))
    (Array.replicate p.size none)

/-- The number of instructions. -/
def size (c : Code) : Nat := c.order.size

/-- The instruction at a place. -/
def fetch (c : Code) (place : Nat) : Instruction := c.pool.fetch (c.order.getD place 0)

/-- The place of an instruction, which has to be in the order. -/
def placeOf (c : Code) (id : Nat) : Except Fault Nat :=
  match c.places.getD id none with
  | some place => .ok place
  | none => .error .missingKey

/-- The places that an instruction may go to, besides the next one. -/
def targets (c : Code) (i : Instruction) : Except Fault (List Nat) :=
  if i.isDangling then .error .missingKey
  else if i.lacksTable then .error .wrongKind
  else i.targets.mapM c.placeOf

/-- The last place that is laid out at an offset. -/
def placeAt? (c : Code) (offset : Int) : Option Nat :=
  (List.range c.size).reverse.find? fun place => (c.fetch place).offset = offset

end Code

/-- The depth after an instruction that takes and leaves slots. -/
def depthAfter (effect : Nat × Nat) (depth : Nat) : Nat := depth - effect.1 + effect.2

/-- The depth with which an instruction goes on, which leaving a protected block sets to zero. -/
def depthOnward (i : Instruction) (depth : Nat) : Nat := if i.opcode.isLeave then 0 else depth

/-- How far a walk has come. -/
structure Walk where
  /-- The depth on entry to each instruction that was visited. -/
  depths : Array (Option Nat)
  /-- Places still to go to, with the depth there; the next one first. -/
  pending : List (Nat × Nat)
  /-- The deepest stack so far. -/
  deepest : Nat
  /-- A place with none before it that was not visited. -/
  seed : Nat := 0

namespace Walk

/-- The depth with which a place was visited. -/
def depthAt (w : Walk) (place : Nat) : Option Nat := w.depths.getD place none

/-- A place is visited with a depth; the places that control goes to are pending, and what else was
pending is so still. -/
def visit (w : Walk) (place depth : Nat) (i : Instruction) (effect : Nat × Nat)
    (nexts : List Nat) : Walk where
  depths := w.depths.setIfInBounds place (some depth)
  pending := nexts.map (fun next => (next, depthOnward i (depthAfter effect depth))) ++ w.pending
  deepest := max w.deepest (depthAfter effect depth)
  seed := w.seed

@[simp] theorem size_depths_visit (w : Walk) (place depth : Nat) (i : Instruction)
    (effect : Nat × Nat) (nexts : List Nat) :
    (w.visit place depth i effect nexts).depths.size = w.depths.size :=
  Array.size_setIfInBounds

/-- A visit gives its place a depth and leaves those of the other places. -/
theorem depthAt_visit {w : Walk} {place : Nat} (h : place < w.depths.size) (depth : Nat)
    (i : Instruction) (effect : Nat × Nat) (nexts : List Nat) (other : Nat) :
    (w.visit place depth i effect nexts).depthAt other =
      if other = place then some depth else w.depthAt other := by
  simp only [depthAt, visit, Array.getD_eq_getD_getElem?, Array.getElem?_setIfInBounds]
  by_cases he : other = place
  · subst he
    simp [h]
  · rw [if_neg (fun hc => he hc.symm), if_neg he]

/-- A place that is still to be visited. -/
theorem getElem?_depths {w : Walk} {place : Nat} :
    w.depths[place]? = some none ↔ place < w.depths.size ∧ w.depthAt place = none := by
  rw [depthAt, Array.getD_eq_getD_getElem?]
  constructor
  · intro h
    exact ⟨(Array.getElem?_eq_some_iff.mp h).1, by rw [h]; rfl⟩
  · rintro ⟨hlt, h⟩
    rw [Array.getElem?_eq_getElem hlt, Option.getD_some] at h
    rw [Array.getElem?_eq_getElem hlt, h]

/-- What a place may still add to the walk: its visit, and one more pending place for each of its
targets. -/
def owed (c : Code) (w : Walk) (place : Nat) : Nat :=
  if (w.depthAt place).isSome then 0
  else ((c.targets (c.fetch place)).toOption.getD []).length + 1

/-- A bound on what is left of a walk: the places that are pending or may become so, and those to
visit. -/
def left (c : Code) (w : Walk) : Nat :=
  w.pending.length + ((List.range w.depths.size).map (w.owed c)).sum

end Walk

/-- A sum in which one summand has become zero. -/
theorem sum_range_of_eq_zero {f g : Nat → Nat} {n place : Nat} (hlt : place < n)
    (hz : g place = 0) (hsame : ∀ other, other ≠ place → g other = f other) :
    ((List.range n).map g).sum + f place = ((List.range n).map f).sum := by
  induction n with
  | zero => omega
  | succ n ih =>
    simp only [List.range_succ, List.map_append, List.map_singleton, List.sum_append_nat,
      List.sum_singleton]
    rcases Nat.lt_succ_iff_lt_or_eq.mp hlt with hlt | rfl
    · have h := ih hlt
      rw [hsame n (by omega)]
      omega
    · have hcongr : (List.range place).map g = (List.range place).map f :=
        List.map_congr_left fun other ho => hsame other (by
          have := List.mem_range.mp ho
          omega)
      rw [hcongr, hz]
      omega

/-- Taking a place off the pending ones leaves one thing less to be done. -/
theorem Walk.left_of_pending (c : Code) {w : Walk} {x : Nat × Nat} {rest : List (Nat × Nat)}
    (h : w.pending = x :: rest) : ({ w with pending := rest } : Walk).left c + 1 = w.left c := by
  change rest.length + ((List.range w.depths.size).map (w.owed c)).sum + 1 = _
  rw [left, h, List.length_cons]
  omega

/-- A visit makes pending what its place owed, and leaves one place less to visit. -/
theorem Walk.left_visit {c : Code} {w : Walk} {place : Nat}
    (hplace : w.depths[place]? = some none) {targets : List Nat}
    (htargets : c.targets (c.fetch place) = .ok targets) (depth : Nat) (i : Instruction)
    (effect : Nat × Nat) :
    (w.visit place depth i effect targets.reverse).left c + 1 = w.left c := by
  obtain ⟨hlt, hnone⟩ := getElem?_depths.mp hplace
  have hsum := sum_range_of_eq_zero (f := w.owed c)
    (g := (w.visit place depth i effect targets.reverse).owed c) hlt
    (by rw [owed, depthAt_visit hlt, if_pos rfl, Option.isSome_some, if_pos rfl])
    (fun other ho => by rw [owed, owed, depthAt_visit hlt, if_neg ho])
  have hself : w.owed c place = targets.length + 1 := by
    rw [owed, hnone, htargets]
    rfl
  have hpending : (w.visit place depth i effect targets.reverse).pending.length =
      targets.length + w.pending.length := by
    simp [Walk.visit]
  rw [left, left, hpending, size_depths_visit]
  omega

/-- Go from a place through the instructions that follow each other, up to one that was visited or
lets nothing through; the targets passed on the way become pending. -/
def follow (c : Code) (place depth : Nat) (w : Walk) : Except Fault Walk :=
  match _ : w.depths[place]? with
  | some none =>
    let i := c.fetch place
    match i.stackEffect, c.targets i with
    | .error e, _ => .error e
    | _, .error e => .error e
    | .ok effect, .ok targets =>
      let visited := w.visit place depth i effect targets.reverse
      if i.opcode.endsBlock then .ok visited
      else follow c (place + 1) (depthOnward i (depthAfter effect depth)) visited
  | _ => .ok w
termination_by w.depths.size - place
decreasing_by
  rename_i hplace _
  have hlt := (Walk.getElem?_depths.mp hplace).1
  rw [Walk.size_depths_visit]
  omega

/-- Following the instructions from a place on leaves no more to do, and less when the place was
still to be visited. -/
theorem left_of_follow {c : Code} {place depth : Nat} {w w' : Walk}
    (h : follow c place depth w = .ok w') :
    w'.left c ≤ w.left c ∧ (w.depths[place]? = some none → w'.left c < w.left c) := by
  fun_induction follow c place depth w with
  | case1 => cases h
  | case2 => cases h
  | case3 place depth w hplace i effect targets htargets _ visited _ =>
    have hleft : visited.left c + 1 = w.left c := Walk.left_visit hplace htargets depth i effect
    rw [← Except.ok.inj h]
    omega
  | case4 place depth w hplace i effect targets htargets _ visited _ ih =>
    have hleft : visited.left c + 1 = w.left c := Walk.left_visit hplace htargets depth i effect
    have hrest := (ih h).1
    omega
  | case5 place depth w hvisited =>
    cases h
    exact ⟨Nat.le_refl _, fun hplace => (hvisited hplace).elim⟩

/-- The first place from one on that was not visited. -/
def unvisited? (depths : Array (Option Nat)) (place : Nat) : Option Nat :=
  match _ : depths[place]? with
  | some none => some place
  | some (some _) => unvisited? depths (place + 1)
  | none => none
termination_by depths.size - place
decreasing_by
  rename_i hplace
  have hlt := (Array.getElem?_eq_some_iff.mp hplace).1
  omega

/-- The place that the walk is restarted from has no depth yet. -/
theorem getElem?_of_unvisited? {depths : Array (Option Nat)} {place seed : Nat}
    (h : unvisited? depths place = some seed) : depths[seed]? = some none := by
  fun_induction unvisited? depths place with
  | case1 place hplace =>
    cases h
    exact hplace
  | case2 _ _ _ ih => exact ih h
  | case3 => cases h

/-- Walk until nothing is pending and everything was visited. A place that the walk goes to on its
own is taken at once. -/
def explore (c : Code) (w : Walk) : Except Fault Walk :=
  match _ : w.pending with
  | (place, depth) :: rest =>
    match _ : follow c place depth { w with pending := rest } with
    | .error e => .error e
    | .ok next => explore c next
  | [] =>
    match _ : unvisited? w.depths w.seed with
    | none => .ok w
    | some seed =>
      match _ : follow c seed 1 { w with seed } with
      | .error e => .error e
      | .ok next => explore c next
termination_by w.left c
decreasing_by
  · rename_i hpending hfollow
    have hleft := (left_of_follow hfollow).1
    have hpop := Walk.left_of_pending c hpending
    omega
  · rename_i hseed hfollow
    exact (left_of_follow hfollow).2 (getElem?_of_unvisited? hseed)

/-- Where the runtime enters the code: the first instruction, and the handler and the filter of each
clause, with the depth there. -/
def entries (c : Code) (clauses : List Clause) : List (Nat × Nat) :=
  (0, 0) :: clauses.flatMap fun clause =>
    ((c.placeAt? clause.handlerOffset).map fun place => (place, clause.handlerDepth)).toList ++
      if clause.flags = Clause.filter then
        ((c.placeAt? clause.token).map fun place => (place, 1)).toList
      else []

/-- The walk before its first step. -/
def Walk.start (c : Code) (clauses : List Clause) : Walk where
  depths := Array.replicate c.size none
  pending := (entries c clauses).reverse
  deepest := 0

/-- The deepest evaluation stack of an order with its clauses. -/
def deepest (p : Pool) (order : List Nat) (clauses : List Clause) : Except Fault Nat :=
  if order.isEmpty then .ok 0
  else
    let c := Code.ofOrder p order
    (·.deepest) <$> explore c (Walk.start c clauses)

end CilRestore.StackDepth
