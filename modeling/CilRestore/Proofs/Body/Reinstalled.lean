import CilRestore.Body.Basic
import CilRestore.Proofs.Body.Compiled
import CilRestore.Proofs.Layout.Settled

/-!
# Compiling installed instructions again

Installing a list of instructions tells each its place and leaves the rest of the pool alone
(`Pool.IsReindexed`), so it makes no difference to laying out. Compiling then settles the list, and
so moves the very offsets by which the next compilation reads the clauses of the stub. The code is
the same from then on, but the second time a clause is kept when its boundaries are boundaries of
the settled list, wherever they were before (`MethodBody.compileWith_again`).
-/

namespace CilRestore

/-! ### Telling instructions their places -/

namespace Pool

/-- A pool in which some instructions have other indexes. -/
structure IsReindexed (ids : List Nat) (p q : Pool) : Prop where
  /-- It has the same identities. -/
  size_eq : q.size = p.size
  /-- Nothing but indexes changed. -/
  fetch : ∀ id, ∃ index, q.fetch id = { p.fetch id with index }
  /-- Other instructions are as they were. -/
  outside : ∀ id ∉ ids, q.fetch id = p.fetch id

namespace IsReindexed

variable {ids more : List Nat} {p q r : Pool}

theorem refl (p : Pool) : IsReindexed [] p p :=
  ⟨rfl, fun id => ⟨(p.fetch id).index, rfl⟩, fun _ _ => rfl⟩

/-- Giving an instruction another number reindexes it alone. -/
theorem put (p : Pool) (id : Nat) (index : Int) :
    IsReindexed [id] p (p.put id { p.fetch id with index }) := by
  refine ⟨size_put _ _ _, fun other => ?_, fun other hother => ?_⟩
  · rw [fetch_put]
    split
    · rename_i h
      exact ⟨index, by rw [h.1]⟩
    · exact ⟨(p.fetch other).index, rfl⟩
  · exact fetch_put_of_ne (by simpa using hother) _

theorem trans (h : IsReindexed ids p q) (h' : IsReindexed more q r) :
    IsReindexed (ids ++ more) p r := by
  refine ⟨h'.size_eq.trans h.size_eq, fun id => ?_, fun id hid => ?_⟩
  · obtain ⟨_, hq⟩ := h.fetch id
    obtain ⟨index, hr⟩ := h'.fetch id
    exact ⟨index, by rw [hr, hq]⟩
  · rw [List.mem_append, not_or] at hid
    rw [h'.outside id hid.2, h.outside id hid.1]

/-- Numbers of instructions are no part of the code. -/
theorem sameCode (h : IsReindexed ids p q) : SameCode p q := by
  refine ⟨h.size_eq, fun id => ?_, fun id => ?_⟩ <;>
    · obtain ⟨index, hq⟩ := h.fetch id
      rw [hq]

/-- Nor do they move instructions. -/
theorem offset (h : IsReindexed ids p q) (id : Nat) : (q.fetch id).offset = (p.fetch id).offset := by
  obtain ⟨index, hq⟩ := h.fetch id
  rw [hq]

/-- Placing an order gives its instructions new indexes. -/
theorem assign_eq (h : IsReindexed ids p q) (hn : ids.Nodup) (hb : ∀ id ∈ ids, id < p.size) :
    q.assign ids = p.assign ids := by
  have hbq : ∀ id ∈ ids, id < q.size := by
    intro id hid
    rw [h.size_eq]
    exact hb id hid
  refine Prod.ext (ext_fetch ?_ fun id => ?_) ?_
  · rw [(q.assign_sameCode ids).size_eq, (p.assign_sameCode ids).size_eq, h.size_eq]
  · by_cases hid : id ∈ ids
    · obtain ⟨place, hplace⟩ := List.mem_iff_getElem?.mp hid
      obtain ⟨index, hq⟩ := h.fetch id
      rw [assign, assign, fetch_assignFrom hn hbq hplace, fetch_assignFrom hn hb hplace, hq,
        h.sameCode.startIn]
    · rw [assign, assign, fetch_assignFrom_of_notMem hid, fetch_assignFrom_of_notMem hid,
        h.outside id hid]
  · rw [assign_snd, assign_snd, h.sameCode.startIn]

/-- Settling numbers instructions anew, so the numbers from before do not matter. -/
theorem settle_eq (h : IsReindexed ids p q) (hn : ids.Nodup) (hb : ∀ id ∈ ids, id < p.size)
    (fuel : Nat) : q.settle fuel ids = p.settle fuel ids := by
  cases fuel with
  | zero => rw [settle, settle, h.assign_eq hn hb]
  | succ fuel => rw [settle, settle, h.assign_eq hn hb]

/-- The former places go by offsets and not by numbers. -/
theorem formerPlaces_eq (h : IsReindexed ids p q) (order : List Nat) :
    FormerPlaces.ofOrder q order = FormerPlaces.ofOrder p order := by
  simp only [FormerPlaces.ofOrder, h.offset, h.sameCode.sizeOf]

/-- Laying an order out does not depend on the indexes of its instructions. -/
theorem layOut_eq (h : IsReindexed ids p q) (hclosed : p.IsClosed ids) (hn : ids.Nodup)
    (clauses : List Clause) : layOut ids clauses q = layOut ids clauses p := by
  have hclosed' := hclosed.of_isWidening (.of_sameCode h.sameCode)
  rw [hclosed'.layOut_eq, hclosed.layOut_eq, h.sameCode.shortBranches,
    h.settle_eq hn hclosed.inside, h.formerPlaces_eq]

end IsReindexed

end Pool

namespace MethodBody

/-! ### Installing and compiling -/

/-- Putting instructions last one after the other puts the list last. -/
theorem foldl_append (ids : List Nat) (b : MethodBody) :
    (ids.foldl append b).order = b.order ++ ids ∧ (ids.foldl append b).stub = b.stub ∧
      (b.compiled = none → (ids.foldl append b).compiled = none) ∧
      b.pool.IsReindexed ids (ids.foldl append b).pool := by
  induction ids generalizing b with
  | nil => exact ⟨(List.append_nil _).symm, rfl, id, .refl _⟩
  | cons first rest ih =>
    obtain ⟨horder, hstub, hcompiled, hpool⟩ := ih (b.append first)
    rw [List.foldl_cons]
    exact ⟨horder.trans (List.append_assoc ..), hstub, fun _ => hcompiled rfl,
      (Pool.IsReindexed.put b.pool first b.order.length).trans hpool⟩

/-- Installed instructions are told their places, and the stub stays. -/
theorem install_none (b : MethodBody) (ids : List Nat) :
    (b.install ids none).order = ids ∧ (b.install ids none).stub = b.stub ∧
      (b.install ids none).compiled = none ∧ b.pool.IsReindexed ids (b.install ids none).pool := by
  obtain ⟨horder, hstub, hcompiled, hpool⟩ := foldl_append ids b.clear
  exact ⟨horder, hstub, hcompiled rfl, hpool⟩

/-- Serializing a body moves its instructions, and changes nothing else. -/
theorem serializeNow_state (b : MethodBody) : (serializeNow b).state =
    { b with pool := (layOut b.order b.stub.clauses b.pool).state } := by
  simp only [serializeNow, bind, Action.bind, Action.read, Action.within]
  cases (layOut b.order b.stub.clauses b.pool).result <;> rfl

/-- A body whose order is laid out is serialized from the layout. -/
theorem serializeNow_of_layOut {b : MethodBody} {layout : Layout} {q : Pool} {lines : List String}
    (hout : layOut b.order b.stub.clauses b.pool = ⟨.ok layout, q, lines⟩) :
    (serializeNow b).result = serialize q b.order b.header layout := by
  simp only [serializeNow, bind, Action.bind, Action.read, Action.within, hout, Action.ofExcept]
  rfl

/-- A body whose bytes are not known is serialized, and keeps the bytes if there are any. -/
theorem compile_of_unknown {b : MethodBody} (hb : b.compiled = none) :
    (compile b).result = (serializeNow b).result ∧ (compile b).state =
      { (serializeNow b).state with compiled := (serializeNow b).result.toOption } := by
  have hstate := serializeNow_state b
  cases hs : (serializeNow b).result with
  | error e =>
    simp only [compile, bind, Action.bind, Action.read, hb, hs, true_and]
    rw [hstate, hb]
    rfl
  | ok bytes =>
    simp only [compile, bind, Action.bind, Action.read, hb, hs, Action.update, pure, Action.pure,
      true_and]
    rfl

/-- A body whose bytes are known answers them and stays as it is. -/
theorem compile_of_known {b : MethodBody} {bytes : Bytes} (hb : b.compiled = some bytes) :
    (compile b).result = .ok bytes ∧ (compile b).state = b := by
  simp only [compile, bind, Action.bind, Action.read, hb, pure, Action.pure, and_self]

/-- A body whose bytes are not known compiles to what its order is serialized to, and its
instructions stay where they were laid out. -/
theorem compile_of_layOut {b : MethodBody} {layout : Layout} {q : Pool} {lines : List String}
    (hb : b.compiled = none) (hout : layOut b.order b.stub.clauses b.pool = ⟨.ok layout, q, lines⟩) :
    (compile b).result = serialize q b.order b.header layout ∧ (compile b).state.pool = q ∧
      (compile b).state.stub = b.stub := by
  obtain ⟨hresult, hstate⟩ := compile_of_unknown hb
  rw [serializeNow_state, hout] at hstate
  exact ⟨hresult.trans (serializeNow_of_layOut hout), by rw [hstate], by rw [hstate]⟩

/-- Compile a body with other instructions of its pool. -/
def compileWith (ids : List Nat) : Action MethodBody Bytes := do
  Action.update fun b => b.install ids none
  compile

/-- A body after so many compilations with the same instructions. -/
def afterCompiling (ids : List Nat) : Nat → MethodBody → MethodBody
  | 0, b => b
  | times + 1, b => afterCompiling ids times (compileWith ids b).state

variable {b : MethodBody} {ids : List Nat}

/-- A body compiles with other instructions to what these are laid out and serialized to. -/
theorem compileWith_of_layOut {layout : Layout} {q : Pool} {lines : List String}
    (hclosed : b.pool.IsClosed ids) (hn : ids.Nodup)
    (hout : layOut ids b.stub.clauses b.pool = ⟨.ok layout, q, lines⟩) :
    (compileWith ids b).result = serialize q ids b.header layout ∧
      (compileWith ids b).state.pool = q ∧ (compileWith ids b).state.stub = b.stub := by
  obtain ⟨horder, hstub, hcompiled, hpool⟩ := b.install_none ids
  have hout' : layOut (b.install ids none).order (b.install ids none).stub.clauses
      (b.install ids none).pool = ⟨.ok layout, q, lines⟩ := by
    rw [horder, hstub, hpool.layOut_eq hclosed hn, hout]
  obtain ⟨hresult, hstate, hkept⟩ := compile_of_layOut hcompiled hout'
  rw [horder, header, hstub] at hresult
  exact ⟨hresult, hstate, hkept.trans hstub⟩

/-- A body compiles to the same bytes again and again once laying its instructions out changes
nothing. -/
theorem compileWith_afterCompiling {layout : Layout} {lines : List String}
    (hclosed : b.pool.IsClosed ids) (hn : ids.Nodup)
    (hout : layOut ids b.stub.clauses b.pool = ⟨.ok layout, b.pool, lines⟩) (times : Nat) :
    (compileWith ids (afterCompiling ids times b)).result =
      serialize b.pool ids b.header layout := by
  induction times generalizing b with
  | zero => exact (compileWith_of_layOut hclosed hn hout).1
  | succ times ih =>
    obtain ⟨-, hpool, hstub⟩ := compileWith_of_layOut hclosed hn hout
    have hagain := ih (b := (compileWith ids b).state) (by rwa [hpool]) (by rw [hpool, hstub, hout])
    rw [hpool, header, hstub] at hagain
    exact hagain

/-- The bytes of two layouts of the same code are the same only when the clauses are. -/
theorem clauses_of_serialize {q : Pool} {header : BodyHeader} {layout again : Layout}
    {bytes : Bytes} (hsize : layout.codeSize = q.startIn ids ids.length)
    (hagain : again.codeSize = layout.codeSize) (h : serialize q ids header layout = .ok bytes)
    (h' : serialize q ids header again = .ok bytes) : again.clauses = layout.clauses := by
  obtain ⟨code, hcode, written, -⟩ := serialized_of_ok h
  obtain ⟨code', hcode', written', -⟩ := serialized_of_ok h'
  have hlen : ∀ {c : Bytes}, q.encodeAll ids = .ok c → c.length = layout.codeSize := by
    intro c hc
    rw [Pool.length_of_encodeAll hc, hsize, Pool.startIn_length]
  exact written.clauses_unique written' (hlen hcode) ((hlen hcode').trans hagain.symm)

/-- Compiling a body with a closed list of distinct instructions settles the list. When the list is
installed and compiled again, and from then on, the code stays; but the clauses of the stub are kept
now when their boundaries are boundaries of the settled list, as they are, while the first time they
were carried over from where the instructions stood before. The bytes are the same exactly when the
clauses are, as they are for a list that was settled before. -/
theorem compileWith_again (hclosed : b.pool.IsClosed ids) (hn : ids.Nodup) :
    let first := (compileWith ids b).result
    let second := (compileWith ids (afterCompiling ids 1 b)).result
    ∃ layout again q, Pool.IsWidening ids b.pool q ∧ q.IsSettled ids ∧
      (layOut ids b.stub.clauses).Ends b.pool layout q ∧
      (layOut ids b.stub.clauses).Ends q again q ∧
      first = serialize q ids b.header layout ∧ second = serialize q ids b.header again ∧
      again.codeSize = layout.codeSize ∧
      layout.clauses = b.stub.clauses.filterMap (Clause.carry? (b.pool.moved? q ids)) ∧
      (ids ≠ [] → again.clauses =
        b.stub.clauses.filter fun c => c.boundaries.all (· ∈ q.formerBoundaries ids)) ∧
      (again.clauses = layout.clauses → second = first) ∧
      (∀ bytes, first = .ok bytes → second = .ok bytes → again.clauses = layout.clauses) ∧
      (b.pool.IsSettled ids → again = layout) ∧
      ∀ times, (compileWith ids (afterCompiling ids (times + 1) b)).result = second := by
  obtain ⟨layout, q, lines, hout, hwide, hsettled, hclosedq, hsize, hcarried⟩ :=
    hclosed.layOut_settles hn b.stub.clauses
  obtain ⟨again, lines', hout', hsize', hkept⟩ := hsettled.layOut hclosedq hn b.stub.clauses
  obtain ⟨hfirst, hpool, hstub⟩ := compileWith_of_layOut hclosed hn hout
  have hlater : ∀ times, (compileWith ids (afterCompiling ids (times + 1) b)).result =
      serialize q ids b.header again := by
    intro times
    have hlater := compileWith_afterCompiling (b := (compileWith ids b).state) (by rwa [hpool]) hn
      (by rw [hpool, hstub, hout']) times
    rw [hpool, header, hstub] at hlater
    exact hlater
  have hsame : again.codeSize = layout.codeSize := hsize'.trans hsize.symm
  refine ⟨layout, again, q, hwide, hsettled, ⟨by rw [hout], by rw [hout]⟩,
    ⟨by rw [hout'], by rw [hout']⟩, hfirst, hlater 0, hsame, hcarried, fun hne => ?_,
    fun hclauses => ?_, fun bytes h h' => ?_, fun hbefore => ?_,
    fun times => (hlater times).trans (hlater 0).symm⟩
  · rw [hkept, hsettled.laidOut.filterMap_carry?_self hne]
  · rw [hlater 0, hfirst, serialize_congr hsame hclauses]
  · exact clauses_of_serialize hsize hsame (hfirst ▸ h) (hlater 0 ▸ h')
  · obtain ⟨layout', _, hfixed, -⟩ := hbefore.layOut hclosed hn b.stub.clauses
    rw [hfixed] at hout
    cases hout
    rw [hfixed] at hout'
    cases hout'
    rfl

/-- A protected block of two instructions and its handler, and an instruction that is new. -/
def guardedBody : MethodBody where
  stub := { clauses := [⟨2, 0, 3, 3, 2, 0⟩] }
  pool := #[⟨.nop, .nothing, -1, -1⟩, ⟨.nop, .nothing, 0, 0⟩,
    ⟨⟨0xDE, "leave.s", .shortBranch, some 0, some 0, .branch⟩, .target 5, 1, 1⟩,
    ⟨.nop, .nothing, 3, 2⟩,
    ⟨⟨0xDC, "endfinally", .nothing, some 0, some 0, .returns⟩, .nothing, 4, 3⟩,
    ⟨⟨0x2A, "ret", .nothing, some 0, some 0, .returns⟩, .nothing, 5, 4⟩]

/-- All targets of the guarded body are in it. -/
theorem guardedBody_isClosed : guardedBody.pool.IsClosed (List.range 6) :=
  ⟨by decide, by unfold Pool.IsDefined; decide +kernel, by decide, by decide, by decide +kernel⟩

/-- With the new instruction in front the clause moves with the others. -/
theorem compileWith_guardedBody : (compileWith (List.range 6) guardedBody).result =
    .ok [0x0B, 0x30, 0, 0, 7, 0, 0, 0, 0, 0, 0, 0, 0x00, 0x00, 0xDE, 2, 0x00, 0xDC, 0x2A, 0,
      1, 16, 0, 0, 2, 0, 1, 0, 3, 4, 0, 2, 0, 0, 0, 0] :=
  Sequence.toOption_eq_some.mp (by decide +kernel)

/-- The second time the clause would begin at the new instruction and end within the branch, so it
is dropped. -/
theorem compileWith_guardedBody_again :
    (compileWith (List.range 6) (afterCompiling (List.range 6) 1 guardedBody)).result =
      .ok [0x1E, 0x00, 0x00, 0xDE, 2, 0x00, 0xDC, 0x2A] :=
  Sequence.toOption_eq_some.mp (by decide +kernel)

/-- From the second compilation on the block is not protected any more. -/
theorem compileWith_again_of_inserted :
    guardedBody.pool.IsClosed (List.range 6) ∧ (List.range 6).Nodup ∧
      ∃ layout again q, q.IsSettled (List.range 6) ∧
        (layOut (List.range 6) guardedBody.stub.clauses).Ends guardedBody.pool layout q ∧
        (layOut (List.range 6) guardedBody.stub.clauses).Ends q again q ∧
        again.codeSize = layout.codeSize ∧ again.clauses ≠ layout.clauses ∧
        ∀ times, (compileWith (List.range 6)
          (afterCompiling (List.range 6) (times + 1) guardedBody)).result =
            .ok [0x1E, 0x00, 0x00, 0xDE, 2, 0x00, 0xDC, 0x2A] := by
  refine ⟨guardedBody_isClosed, List.nodup_range, ?_⟩
  obtain ⟨layout, again, q, -, hsettled, hends, hends', -, -, hsize, -, -, hsame, -, -, hlater⟩ :=
    compileWith_again guardedBody_isClosed List.nodup_range
  refine ⟨layout, again, q, hsettled, hends, hends', hsize, fun hclauses => ?_, fun times => ?_⟩
  · have hbytes := hsame hclauses
    rw [compileWith_guardedBody, compileWith_guardedBody_again] at hbytes
    revert hbytes
    decide
  · rw [hlater times, compileWith_guardedBody_again]

/-- A list that is installed and compiled twice may lose its clauses. -/
theorem compileWith_loses_clause :
    ¬ ∀ (b : MethodBody) (ids : List Nat), b.pool.IsClosed ids → ids.Nodup →
      (compileWith ids (compileWith ids b).state).result = (compileWith ids b).result := by
  intro h
  have hbytes := h guardedBody (List.range 6) guardedBody_isClosed List.nodup_range
  rw [compileWith_guardedBody] at hbytes
  have hagain := compileWith_guardedBody_again
  rw [afterCompiling, afterCompiling, hbytes] at hagain
  revert hagain
  decide

end MethodBody

end CilRestore
