import CilRestore.Proofs.StackDepth.Flow

/-!
# The walk over an order

The walk takes steps of three kinds (`Walk.Move`): it drops a pending place that was visited, visits
one that was not, or goes to the first place that was not visited when none is pending. The places
that its steps visit are listed (`Walk.Moves`). Each step keeps the invariant of the walk
(`Walk.Inv`): from where it has been, it has been to wherever control goes, or is about to go there,
and the deepest stack is the one after a place that it has visited. The walk ends with nothing
pending and every place visited (`explore_moves`), by induction on the bound that it recurses on.
-/

namespace CilRestore.StackDepth

-- Sums of numbers are those of the core library, whatever else is imported.
attribute [local instance (high)] Zero.ofOfNat0

variable {p : Pool} {order : List Nat} {w w' : Walk}

namespace Walk

/-- A place was visited, or is about to be. -/
def Knows (w : Walk) (place : Nat) : Prop :=
  (w.depthAt place).isSome = true ∨ ∃ depth, (place, depth) ∈ w.pending

/-- The places that control goes to from a place, in the order in which the walk takes them: the
next one, unless the block or the order ends there, and the targets, the last one first. -/
def IsNexts (order : List Nat) (place : Nat) (i : Instruction) (nexts : List Nat) : Prop :=
  ∃ targets, List.Forall₂ (fun target => IsLast order (· = target)) i.targets targets ∧
    nexts = (if i.opcode.endsBlock ∨ order.length ≤ place + 1 then [] else [place + 1]) ++
      targets.reverse

/-- The steps of a walk, with the places that they visit. -/
inductive Move (p : Pool) (order : List Nat) : Walk → List Nat → Walk → Prop
  /-- A pending place that was visited is dropped. -/
  | skip {w : Walk} {place depth : Nat} (hv : (w.depthAt place).isSome = true) :
      Move p order { w with pending := (place, depth) :: w.pending } [] w
  /-- One that was not is visited, and control goes on from there. -/
  | visit {w : Walk} {place depth id : Nat} {effect : Nat × Nat} {nexts : List Nat}
      (hv : w.depthAt place = none) (hid : order[place]? = some id)
      (heffect : (p.fetch id).stackEffect = .ok effect)
      (hnexts : IsNexts order place (p.fetch id) nexts) :
      Move p order { w with pending := (place, depth) :: w.pending } [place]
        (w.visit place depth (p.fetch id) effect nexts)
  /-- When none is pending, the walk goes to the first place that was not visited. -/
  | seed {w : Walk} {seed : Nat} (hp : w.pending = []) (hv : w.depthAt seed = none)
      (hlt : seed < order.length) (hbelow : ∀ place < seed, (w.depthAt place).isSome = true) :
      Move p order w [] { w with pending := [(seed, 1)], seed }

/-- Steps one after the other, with the places that they visit. -/
inductive Moves (p : Pool) (order : List Nat) : Walk → List Nat → Walk → Prop
  | refl (w : Walk) : Moves p order w [] w
  | head {w w' w'' : Walk} {visited visits : List Nat} (hm : Move p order w visited w')
      (h : Moves p order w' visits w'') : Moves p order w (visited ++ visits) w''

/-- One move is a run of moves. -/
theorem Move.moves {visited : List Nat} (h : Move p order w visited w') :
    Moves p order w visited w' := by
  simpa using Moves.head h (.refl w')

/-- Runs of moves follow each other. -/
theorem Moves.trans {w'' : Walk} {visits visits' : List Nat} (h : Moves p order w visits w')
    (h' : Moves p order w' visits' w'') : Moves p order w (visits ++ visits') w'' := by
  induction h with
  | refl _ => exact h'
  | head hm _ ih =>
    rw [List.append_assoc]
    exact .head hm (ih h')

/-- The walk goes to just the places that control goes to. -/
theorem IsNexts.mem_iff {place id : Nat} {nexts : List Nat}
    (h : IsNexts order place (p.fetch id) nexts) (hid : order[place]? = some id) (next : Nat) :
    next ∈ nexts ↔ Goes p order place next := by
  obtain ⟨targets, htargets, rfl⟩ := h
  rw [goes_iff hid, List.mem_append, List.mem_reverse, mem_lasts_iff htargets]
  refine or_congr_left ?_
  split
  · rename_i hstop
    constructor
    · intro hn
      cases hn
    · rintro ⟨hopen, rfl, hlt⟩
      rcases hstop with hends | hlast
      · rw [hopen] at hends
        cases hends
      · omega
  · rename_i hgo
    rw [not_or, Bool.not_eq_true, Nat.not_le] at hgo
    rw [List.mem_singleton]
    constructor
    · rintro rfl
      exact ⟨hgo.1, rfl, hgo.2⟩
    · exact fun hn => hn.2.1

/-! ### What each step keeps -/

/-- What is true of a walk from some starts at all times. -/
structure Inv (p : Pool) (order : List Nat) (starts : List (Nat × Nat)) (w : Walk) : Prop where
  /-- There is a depth for each place. -/
  size_eq : w.depths.size = order.length
  /-- Only places of the order are pending. -/
  pending_lt : ∀ x ∈ w.pending, x.1 < order.length
  /-- The starts are known. -/
  starts_known : ∀ x ∈ starts, w.Knows x.1
  /-- Where control goes from a visited place is known. -/
  goes_known : ∀ place next, (w.depthAt place).isSome = true → Goes p order place next →
    w.Knows next
  /-- Every place before it was visited. -/
  below_seed : ∀ place < w.seed, (w.depthAt place).isSome = true
  /-- The deepest stack covers the stack after each visited place. -/
  covers : ∀ place depth id effect, w.depthAt place = some depth → order[place]? = some id →
    (p.fetch id).stackEffect = .ok effect → depthAfter effect depth ≤ w.deepest
  /-- It is the stack after one of them, if there is any. -/
  attained : w.deepest = 0 ∨ ∃ place depth id effect, w.depthAt place = some depth ∧
    order[place]? = some id ∧ (p.fetch id).stackEffect = .ok effect ∧
    w.deepest = depthAfter effect depth

/-- What is known remains so when the first pending place was visited. -/
theorem Knows.of_skip {place depth : Nat} (hv : (w.depthAt place).isSome = true) {other : Nat}
    (h : Knows { w with pending := (place, depth) :: w.pending } other) : w.Knows other := by
  rcases h with h | ⟨d, hd⟩
  · exact Or.inl h
  · rcases List.mem_cons.mp hd with he | hd
    · rw [Prod.mk.injEq] at he
      exact Or.inl (he.1 ▸ hv)
    · exact Or.inr ⟨d, hd⟩

/-- What is known remains so when the first pending place is visited. -/
theorem Knows.of_visit {place depth : Nat} (hlt : place < w.depths.size) {i : Instruction}
    {effect : Nat × Nat} {nexts : List Nat} {other : Nat}
    (h : Knows { w with pending := (place, depth) :: w.pending } other) :
    (w.visit place depth i effect nexts).Knows other := by
  unfold Knows
  rw [depthAt_visit hlt]
  split
  · exact Or.inl rfl
  · rename_i hne
    rcases h with h | ⟨d, hd⟩
    · exact Or.inl h
    · rcases List.mem_cons.mp hd with he | hd
      · rw [Prod.mk.injEq] at he
        exact absurd he.1 hne
      · exact Or.inr ⟨d, List.mem_append_right _ hd⟩

/-- The walk has a depth for each place of the order. -/
theorem lt_size_depths (hsize : w.depths.size = order.length) {place id : Nat}
    (hid : order[place]? = some id) : place < w.depths.size := by
  rw [hsize]
  exact (List.getElem?_eq_some_iff.mp hid).1

/-- A depth after a visit is the one of the visit, or was met before. -/
theorem depthAt_of_visit {place depth : Nat} (hlt : place < w.depths.size) {i : Instruction}
    {effect : Nat × Nat} {nexts : List Nat} {other d : Nat}
    (h : (w.visit place depth i effect nexts).depthAt other = some d) :
    other = place ∧ d = depth ∨ w.depthAt other = some d := by
  rw [depthAt_visit hlt] at h
  split at h
  · exact Or.inl ⟨‹_›, (Option.some.inj h).symm⟩
  · exact Or.inr h

/-- A depth that was met stays when another place is visited. -/
theorem depthAt_visit_of_some {place depth : Nat} (hlt : place < w.depths.size)
    (hv : w.depthAt place = none) {i : Instruction} {effect : Nat × Nat} {nexts : List Nat}
    {other d : Nat} (h : w.depthAt other = some d) :
    (w.visit place depth i effect nexts).depthAt other = some d := by
  rw [depthAt_visit hlt, if_neg, h]
  rintro rfl
  rw [h] at hv
  cases hv

section steps

variable {starts : List (Nat × Nat)} {place depth : Nat}

/-- The invariant is kept when a pending place that was visited is dropped. -/
theorem Inv.of_skip (hv : (w.depthAt place).isSome = true)
    (h : Inv p order starts { w with pending := (place, depth) :: w.pending }) :
    Inv p order starts w :=
  ⟨h.size_eq, fun x hx => h.pending_lt x (List.mem_cons_of_mem _ hx),
    fun x hx => (h.starts_known x hx).of_skip hv,
    fun place next hp hg => (h.goes_known place next hp hg).of_skip hv,
    h.below_seed, h.covers, h.attained⟩

/-- The invariant is kept when the walk goes to the first place that was not visited. -/
theorem Inv.of_seed {seed : Nat} (hp : w.pending = []) (hlt : seed < order.length)
    (hbelow : ∀ place < seed, (w.depthAt place).isSome = true) (h : Inv p order starts w) :
    Inv p order starts { w with pending := [(seed, 1)], seed } := by
  -- With nothing pending, what is known was visited.
  have hknows : ∀ other, w.Knows other →
      Knows { w with pending := [(seed, 1)], seed } other := by
    rintro other (h | ⟨d, hd⟩)
    · exact Or.inl h
    · rw [hp] at hd
      cases hd
  refine ⟨h.size_eq, ?_, fun x hx => hknows _ (h.starts_known x hx),
    fun place next hplace hg => hknows _ (h.goes_known place next hplace hg),
    hbelow, h.covers, h.attained⟩
  intro x hx
  rw [List.mem_singleton.mp hx]
  exact hlt

/-- The invariant is kept when a place is visited. -/
theorem Inv.of_visit {id : Nat} {effect : Nat × Nat} {nexts : List Nat}
    (hv : w.depthAt place = none) (hid : order[place]? = some id)
    (heffect : (p.fetch id).stackEffect = .ok effect)
    (hnexts : IsNexts order place (p.fetch id) nexts)
    (h : Inv p order starts { w with pending := (place, depth) :: w.pending }) :
    Inv p order starts (w.visit place depth (p.fetch id) effect nexts) := by
  have hlt : place < w.depths.size := lt_size_depths h.size_eq hid
  have hat := depthAt_visit hlt depth (p.fetch id) effect nexts
  refine ⟨by rw [← h.size_eq]; simp [Walk.visit], ?_,
    fun x hx => (h.starts_known x hx).of_visit hlt, ?_, ?_, ?_, ?_⟩
  · intro x hx
    rcases List.mem_append.mp hx with hx | hx
    · obtain ⟨next, hnext, rfl⟩ := List.mem_map.mp hx
      exact ((hnexts.mem_iff hid next).mp hnext).lt
    · exact h.pending_lt x (List.mem_cons_of_mem _ hx)
  · intro other next hother hgoes
    obtain ⟨d, hd⟩ := Option.isSome_iff_exists.mp hother
    rcases depthAt_of_visit hlt hd with ⟨rfl, -⟩ | hd
    · exact Or.inr ⟨_, List.mem_append_left _
        (List.mem_map_of_mem ((hnexts.mem_iff hid next).mpr hgoes))⟩
    · exact (h.goes_known other next (Option.isSome_iff_exists.mpr ⟨d, hd⟩) hgoes).of_visit hlt
  · intro other hother
    rw [hat]
    split
    · rfl
    · exact h.below_seed other hother
  · intro other d oid effect' hd hoid heffect'
    rcases depthAt_of_visit hlt hd with ⟨rfl, rfl⟩ | hd
    · rw [hid, Option.some.injEq] at hoid
      subst hoid
      rw [heffect, Except.ok.injEq] at heffect'
      rw [← heffect']
      exact Nat.le_max_right _ _
    · exact Nat.le_trans (h.covers other d oid effect' hd hoid heffect') (Nat.le_max_left _ _)
  · -- The deepest stack is the one after this place, or it was met before.
    rcases Nat.le_total w.deepest (depthAfter effect depth) with hle | hle
    · exact Or.inr ⟨place, depth, id, effect, by rw [hat, if_pos rfl], hid, heffect,
        Nat.max_eq_right hle⟩
    · rcases h.attained with hzero | ⟨other, d, oid, effect', hd, hoid, heffect', hdeep⟩
      · exact Or.inl ((Nat.max_eq_left hle).trans hzero)
      · exact Or.inr ⟨other, d, oid, effect', depthAt_visit_of_some hlt hv hd, hoid, heffect',
          (Nat.max_eq_left hle).trans hdeep⟩

end steps

/-- A step keeps the invariant. -/
theorem Move.inv {starts : List (Nat × Nat)} {visited : List Nat}
    (hm : Move p order w visited w') (h : Inv p order starts w) : Inv p order starts w' := by
  cases hm with
  | skip hv => exact h.of_skip hv
  | visit hv hid heffect hnexts => exact h.of_visit hv hid heffect hnexts
  | seed hp _ hlt hbelow => exact h.of_seed hp hlt hbelow

/-- Any number of moves keeps the invariant. -/
theorem Moves.inv {starts : List (Nat × Nat)} {visits : List Nat}
    (hm : Moves p order w visits w') (h : Inv p order starts w) : Inv p order starts w' := by
  induction hm with
  | refl _ => exact h
  | head hstep _ ih => exact ih (hstep.inv h)

/-- A step keeps the depths that were met. -/
theorem Move.depthAt_eq {visited : List Nat} (hm : Move p order w visited w')
    (hsize : w.depths.size = order.length) {place d : Nat} (h : w.depthAt place = some d) :
    w'.depthAt place = some d := by
  cases hm with
  | skip _ => exact h
  | @visit w _ _ _ _ _ hv hid _ _ =>
    exact depthAt_visit_of_some (w := w) (lt_size_depths hsize hid) hv h
  | seed _ _ _ _ => exact h

/-! ### The depths that are met -/

variable {clauses : List Clause} {depth : Nat → Nat} {starts : List (Nat × Nat)}

/-- So far the walk has met the assigned depths only, and will next. -/
def Agrees (depth : Nat → Nat) (w : Walk) : Prop :=
  (∀ place d, w.depthAt place = some d → d = depth place) ∧ ∀ x ∈ w.pending, x.2 = depth x.1

/-- The walk has been everywhere that is reached, with the assigned depth. -/
def Arrived (p : Pool) (order : List Nat) (clauses : List Clause) (depth : Nat → Nat) (w : Walk) :
    Prop :=
  ∀ place, Reaches p order clauses place → w.depthAt place = some (depth place)

/-- When nothing is pending that was met with the assigned depths, everything that is reached has
been. -/
theorem arrived_of_agrees (h : Inv p order starts w)
    (hstarts : ∀ place d, Enters p order clauses place d → (place, d) ∈ starts)
    (ha : Agrees depth w) (hp : w.pending = []) : Arrived p order clauses depth w := by
  have hvisited : ∀ place, w.Knows place → w.depthAt place = some (depth place) := by
    rintro place (hsome | ⟨d, hd⟩)
    · obtain ⟨d, hd⟩ := Option.isSome_iff_exists.mp hsome
      rw [hd, ha.1 place d hd]
    · rw [hp] at hd
      cases hd
  intro place hreach
  induction hreach with
  | enter henters => exact hvisited _ (h.starts_known _ (hstarts _ _ henters))
  | go _ hgoes ih => exact hvisited _ (h.goes_known _ _ (by rw [ih]; rfl) hgoes)

/-- A step meets the assigned depths until everything that is reached has been met. -/
theorem Move.agrees_or_arrived {visited : List Nat} (hm : Move p order w visited w')
    (hd : IsDepth p order clauses depth)
    (h : Inv p order starts w)
    (hstarts : ∀ place d, Enters p order clauses place d → (place, d) ∈ starts)
    (ha : Agrees depth w ∨ Arrived p order clauses depth w) :
    Agrees depth w' ∨ Arrived p order clauses depth w' := by
  rcases ha with ha | ha
  · cases hm with
    | skip hv => exact Or.inl ⟨ha.1, fun x hx => ha.2 x (List.mem_cons_of_mem _ hx)⟩
    | @visit w place d id effect nexts hv hid heffect hnexts =>
      have hlt : place < w.depths.size := lt_size_depths h.size_eq hid
      have hdepth : d = depth place := ha.2 (place, d) List.mem_cons_self
      refine Or.inl ⟨fun other e he => ?_, fun x hx => ?_⟩
      · rcases depthAt_of_visit hlt he with ⟨rfl, rfl⟩ | he
        · exact hdepth
        · exact ha.1 other e he
      · rcases List.mem_append.mp hx with hx | hx
        · obtain ⟨next, hnext, rfl⟩ := List.mem_map.mp hx
          have hgoes := (hnexts.mem_iff hid next).mp hnext
          rw [hd.goes place next id effect hgoes hid heffect, ← hdepth]
        · exact ha.2 x (List.mem_cons_of_mem _ hx)
    | seed hp _ _ _ =>
      have harrived : Arrived p order clauses depth w := arrived_of_agrees h hstarts ha hp
      exact Or.inr harrived
  · exact Or.inr fun place hreach => hm.depthAt_eq h.size_eq (ha place hreach)

/-- Any number of moves agrees with the depths that there are, unless the walk has arrived
everywhere. -/
theorem Moves.agrees_or_arrived {visits : List Nat} (hm : Moves p order w visits w')
    (hd : IsDepth p order clauses depth) (h : Inv p order starts w)
    (hstarts : ∀ place d, Enters p order clauses place d → (place, d) ∈ starts)
    (ha : Agrees depth w ∨ Arrived p order clauses depth w) :
    Agrees depth w' ∨ Arrived p order clauses depth w' := by
  induction hm with
  | refl _ => exact ha
  | head hstep _ ih => exact ih (hstep.inv h) (hstep.agrees_or_arrived hd h hstarts ha)

end Walk

/-! ### How the walk goes -/

open Walk

/-- Following stops at a place that has a depth. -/
theorem follow_of_visited {c : Code} {place : Nat} (h : (w.depthAt place).isSome = true)
    (depth : Nat) : follow c place depth w = .ok w := by
  rw [follow]
  split
  · rename_i hplace
    rw [(getElem?_depths.mp hplace).2] at h
    cases h
  · rfl

/-- The order ends where there is no place left. -/
theorem follow_of_le {c : Code} {place : Nat} (h : w.depths.size ≤ place) (depth : Nat) :
    follow c place depth w = .ok w := by
  rw [follow]
  split
  · rename_i hplace
    have hlt := (getElem?_depths.mp hplace).1
    omega
  · rfl

/-- At another place it visits the instruction and goes on behind it, unless the block ends there.
-/
theorem follow_of_unvisited {c : Code} {place : Nat} {effect : Nat × Nat} {targets : List Nat}
    (hplace : w.depths[place]? = some none) (heffect : (c.fetch place).stackEffect = .ok effect)
    (htargets : c.targets (c.fetch place) = .ok targets) (depth : Nat) :
    let visited := w.visit place depth (c.fetch place) effect targets.reverse
    follow c place depth w = if (c.fetch place).opcode.endsBlock then .ok visited
      else follow c (place + 1) (depthOnward (c.fetch place) (depthAfter effect depth))
        visited := by
  rw [follow]
  split
  · simp only [heffect, htargets]
  · rename_i hnot
    exact absurd hplace hnot

/-- Following the instructions from a place on answers after some steps of the walk. -/
theorem follow_moves (hw : IsWalkable p order) {place : Nat} (hlt : place < order.length)
    (depth : Nat) (hsize : w.depths.size = order.length) :
    ∃ visits w', follow (Code.ofOrder p order) place depth w = .ok w' ∧
      Moves p order { w with pending := (place, depth) :: w.pending } visits w' := by
  induction hleft : order.length - place generalizing place depth w with
  | zero => omega
  | succ left ih =>
    by_cases hv : (w.depthAt place).isSome = true
    · exact ⟨_, w, follow_of_visited hv depth, (Move.skip hv).moves⟩
    have hnone : w.depthAt place = none := by simpa using hv
    obtain ⟨id, hid⟩ : ∃ id, order[place]? = some id := ⟨_, List.getElem?_eq_getElem hlt⟩
    obtain ⟨effect, heffect⟩ := hw.exists_effect hid
    obtain ⟨targets, htargets, hlasts⟩ := Code.targets_ofOrder hw hid
    have hfetch := Code.fetch_of_getElem? (p := p) hid
    rw [follow_of_unvisited (getElem?_depths.mpr ⟨by omega, hnone⟩)
      (by rw [hfetch]; exact heffect) (by rw [hfetch]; exact htargets), hfetch]
    have hvsize : (w.visit place depth (p.fetch id) effect targets.reverse).depths.size =
        order.length := by rw [size_depths_visit, hsize]
    -- Control goes on to the next place, unless the block or the order ends here.
    by_cases hstop : (p.fetch id).opcode.endsBlock ∨ order.length ≤ place + 1
    · have hmove : Move p order { w with pending := (place, depth) :: w.pending } [place]
          (w.visit place depth (p.fetch id) effect targets.reverse) :=
        .visit hnone hid heffect ⟨targets, hlasts, by rw [if_pos hstop, List.nil_append]⟩
      refine ⟨_, _, ?_, hmove.moves⟩
      rcases hstop with hends | hlast
      · rw [if_pos hends]
      · rw [follow_of_le (by rw [hvsize]; exact hlast), ite_self]
    · have hmove : Move p order { w with pending := (place, depth) :: w.pending } [place]
          (w.visit place depth (p.fetch id) effect ((place + 1) :: targets.reverse)) :=
        .visit hnone hid heffect ⟨targets, hlasts, by rw [if_neg hstop, List.singleton_append]⟩
      rw [not_or, Nat.not_le] at hstop
      obtain ⟨visits, w', hfollow, hmoves⟩ := ih hstop.2 _ hvsize (by omega)
      rw [if_neg hstop.1]
      exact ⟨_, w', hfollow, .head hmove hmoves⟩

/-- The first place that was not visited, if there is one. -/
theorem unvisited?_spec (w : Walk) (place : Nat) :
    match unvisited? w.depths place with
    | some seed => place ≤ seed ∧ seed < w.depths.size ∧ w.depthAt seed = none ∧
        ∀ other, place ≤ other → other < seed → (w.depthAt other).isSome = true
    | none => ∀ other, place ≤ other → other < w.depths.size →
        (w.depthAt other).isSome = true := by
  fun_induction unvisited? w.depths place with
  | case1 place hplace =>
    obtain ⟨hlt, hnone⟩ := getElem?_depths.mp hplace
    exact ⟨Nat.le_refl _, hlt, hnone, fun other h h' => by omega⟩
  | case2 place depth hplace ih =>
    have hvisited : (w.depthAt place).isSome = true := by
      rw [depthAt, Array.getD_eq_getD_getElem?, hplace]
      rfl
    have hfirst : ∀ other, place ≤ other → (place + 1 ≤ other →
        (w.depthAt other).isSome = true) → (w.depthAt other).isSome = true := by
      intro other hle hrest
      rcases Nat.eq_or_lt_of_le hle with rfl | hlt
      · exact hvisited
      · exact hrest hlt
    split at ih
    · obtain ⟨hle, hlt, hnone, hbetween⟩ := ih
      exact ⟨by omega, hlt, hnone, fun other ho hs =>
        hfirst other ho fun ho' => hbetween other ho' hs⟩
    · exact fun other ho hs => hfirst other ho fun ho' => ih other ho' hs
  | case3 place hplace =>
    have hend := Array.getElem?_eq_none_iff.mp hplace
    exact fun other h h' => by omega

/-- When no place from the last one on that the walk went to on its own is left, every place was
visited. -/
theorem visited_of_unvisited?_none {starts : List (Nat × Nat)} (h : Inv p order starts w)
    (hfound : unvisited? w.depths w.seed = none) :
    ∀ place < order.length, (w.depthAt place).isSome = true := by
  have hrest := unvisited?_spec w w.seed
  simp only [hfound] at hrest
  intro place hlt
  by_cases hb : place < w.seed
  · exact h.below_seed place hb
  · exact hrest place (by omega) (by rw [h.size_eq]; exact hlt)

/-- When none is pending, the walk goes to the place that is found. -/
theorem move_of_unvisited?_some {starts : List (Nat × Nat)} (h : Inv p order starts w)
    (hp : w.pending = []) {next : Nat} (hfound : unvisited? w.depths w.seed = some next) :
    next < order.length ∧ Move p order w [] { w with pending := [(next, 1)], seed := next } := by
  have hspec := unvisited?_spec w w.seed
  simp only [hfound] at hspec
  obtain ⟨hle, hlt, hnone, hbetween⟩ := hspec
  rw [h.size_eq] at hlt
  refine ⟨hlt, .seed hp hnone hlt fun other hother => ?_⟩
  by_cases hb : other < w.seed
  · exact h.below_seed other hb
  · exact hbetween other (by omega) hother

/-- Going to the first pending place answers after some steps of the walk. -/
theorem follow_pending (hw : IsWalkable p order) {starts : List (Nat × Nat)}
    (h : Inv p order starts w) {place depth : Nat} {rest : List (Nat × Nat)}
    (hpending : w.pending = (place, depth) :: rest) :
    ∃ visits w', follow (Code.ofOrder p order) place depth { w with pending := rest } = .ok w' ∧
      Moves p order w visits w' := by
  obtain ⟨depths, pending, deepest, seed⟩ := w
  subst hpending
  exact follow_moves hw (h.pending_lt (place, depth) List.mem_cons_self) depth h.size_eq

/-- So does going to the first place that was not visited. -/
theorem follow_seed (hw : IsWalkable p order) {starts : List (Nat × Nat)}
    (h : Inv p order starts w) (hpending : w.pending = []) {seed : Nat}
    (hfound : unvisited? w.depths w.seed = some seed) :
    ∃ visits w', follow (Code.ofOrder p order) seed 1 { w with seed } = .ok w' ∧
      Moves p order w visits w' := by
  obtain ⟨hlt, hmove⟩ := move_of_unvisited?_some h hpending hfound
  obtain ⟨_, w', hfollow, hmoves⟩ := follow_moves (w := { w with seed }) hw hlt 1 h.size_eq
  rw [hpending] at hmoves
  exact ⟨_, w', hfollow, .head hmove hmoves⟩

/-- A walk ends with nothing pending and every place visited: by induction on the walk itself, of
which each round takes some steps. -/
theorem explore_moves (hw : IsWalkable p order) {starts : List (Nat × Nat)}
    (h : Inv p order starts w) :
    ∃ visits w', explore (Code.ofOrder p order) w = .ok w' ∧ Moves p order w visits w' ∧
      w'.pending = [] ∧ ∀ place < order.length, (w'.depthAt place).isSome = true := by
  fun_induction explore (Code.ofOrder p order) w with
  | case1 w place depth rest hpending e hfails =>
    obtain ⟨_, w', hfollow, -⟩ := follow_pending hw h hpending
    cases hfails.symm.trans hfollow
  | case2 w place depth rest hpending next hnext ih =>
    obtain ⟨_, w', hfollow, hmoves⟩ := follow_pending hw h hpending
    cases hnext.symm.trans hfollow
    obtain ⟨_, w'', hexplore, hmoves', hdone⟩ := ih (hmoves.inv h)
    exact ⟨_, w'', hexplore, hmoves.trans hmoves', hdone⟩
  | case3 w hpending hfound =>
    exact ⟨_, w, rfl, .refl w, hpending, visited_of_unvisited?_none h hfound⟩
  | case4 w hpending seed hfound e hfails =>
    obtain ⟨_, w', hfollow, -⟩ := follow_seed hw h hpending hfound
    cases hfails.symm.trans hfollow
  | case5 w hpending seed hfound next hnext ih =>
    obtain ⟨_, w', hfollow, hmoves⟩ := follow_seed hw h hpending hfound
    cases hnext.symm.trans hfollow
    obtain ⟨_, w'', hexplore, hmoves', hdone⟩ := ih (hmoves.inv h)
    exact ⟨_, w'', hexplore, hmoves.trans hmoves', hdone⟩

end CilRestore.StackDepth
