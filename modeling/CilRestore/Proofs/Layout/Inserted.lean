import CilRestore.Proofs.Layout.Decoded
import CilRestore.Proofs.Layout.Remapping

/-!
# New instructions in decoded code

New instructions may be put anywhere into decoded code (`Pool.IsInserted`). The start of a decoded
instruction is then carried over to where that instruction starts now, wherever the new ones stand.
The end of the code is known by the last instruction alone: when that is a new one, the former end
becomes nothing, and each clause that it bounds is dropped (`layOut_inserted`).
-/

namespace CilRestore

/-- A clause has become another one, each of whose boundaries is what the former one became. -/
structure Clause.Carried (carries : Int → Int → Prop) (c c' : Clause) : Prop where
  /-- It is of the same kind. -/
  flags_eq : c'.flags = c.flags
  /-- It guards from the same boundary on. -/
  tryStart : carries c.tryOffset c'.tryOffset
  /-- It guards up to the same boundary. -/
  tryStop : carries (c.tryOffset + c.tryLength) (c'.tryOffset + c'.tryLength)
  /-- Its handler starts at the same boundary. -/
  handlerStart : carries c.handlerOffset c'.handlerOffset
  /-- Its handler ends at the same boundary. -/
  handlerStop : carries (c.handlerOffset + c.handlerLength) (c'.handlerOffset + c'.handlerLength)
  /-- Its filter starts at the same boundary. -/
  filterStart : c.flags = Clause.filter → carries c.token c'.token
  /-- What else it catches stays. -/
  token_eq : c.flags ≠ Clause.filter → c'.token = c.token

/-- A clause is carried over when each of its boundaries is. -/
theorem Clause.exists_carried {carries : Int → Int → Prop} {carry : Int → Option Int} {c : Clause}
    (h : ∀ offset ∈ c.boundaries, ∃ new, carry offset = some new ∧ carries offset new) :
    ∃ c', c.carry? carry = some c' ∧ c.Carried carries c' := by
  obtain ⟨tryStart, h1, h1'⟩ := h c.tryOffset (by simp [boundaries])
  obtain ⟨tryStop, h2, h2'⟩ := h (c.tryOffset + c.tryLength) (by simp [boundaries])
  obtain ⟨handlerStart, h3, h3'⟩ := h c.handlerOffset (by simp [boundaries])
  obtain ⟨handlerStop, h4, h4'⟩ := h (c.handlerOffset + c.handlerLength) (by simp [boundaries])
  by_cases hf : c.flags = filter
  · obtain ⟨token, h5, h5'⟩ := h c.token (by simp [boundaries, hf])
    refine ⟨⟨c.flags, tryStart, tryStop - tryStart, handlerStart, handlerStop - handlerStart,
      token⟩, ?_, rfl, h1', by rwa [add_sub_cancel], h3', by rwa [add_sub_cancel], fun _ => h5',
      fun hnot => absurd hf hnot⟩
    rw [carry?_eq_some_iff, if_pos hf]
    simp only [add_sub_cancel]
    exact ⟨trivial, h1, h2, h3, h4, h5⟩
  · refine ⟨⟨c.flags, tryStart, tryStop - tryStart, handlerStart, handlerStop - handlerStart,
      c.token⟩, ?_, rfl, h1', by rwa [add_sub_cancel], h3', by rwa [add_sub_cancel],
      fun h => absurd h hf, fun _ => rfl⟩
    rw [carry?_eq_some_iff, if_neg hf]
    simp only [add_sub_cancel]
    exact ⟨trivial, h1, h2, h3, h4, trivial⟩

namespace Lists

variable {code : Bytes} {chunks : List Chunk} {p : Pool}

/-- Each instruction of code stands within it. -/
theorem offset_bounds (h : Lists chunks p) (hc : Parses code chunks) {id : Nat}
    (hid : id < p.size) : 0 ≤ (p.fetch id).offset ∧ (p.fetch id).offset < code.length := by
  rw [h.size_eq] at hid
  have hlt := Chunk.startOf_lt hid hid
  rw [Chunk.startOf_length, hc.covers] at hlt
  rw [h.offset id _ (List.getElem?_eq_getElem hid)]
  omega

/-- No two instructions of code stand at one offset. -/
theorem offset_inj (h : Lists chunks p) {id other : Nat} (hid : id < p.size)
    (hother : other < p.size) (heq : (p.fetch id).offset = (p.fetch other).offset) :
    id = other := by
  rw [h.size_eq] at hid hother
  rw [h.offset id _ (List.getElem?_eq_getElem hid),
    h.offset other _ (List.getElem?_eq_getElem hother), Int.natCast_inj] at heq
  exact Chunk.startOf_inj hid hother heq

end Lists

namespace Pool

/-! ### Orders with new instructions -/

/-- An order over decoded code into which new instructions were put. -/
structure IsInserted (decoded p : Pool) (order : List Nat) : Prop where
  /-- The decoded instructions stand in their order. -/
  inOrder : order.filter (· < decoded.size) = List.range decoded.size
  /-- They are as they were decoded. -/
  fetch : ∀ id < decoded.size, p.fetch id = decoded.fetch id
  /-- The other ones were not laid out yet. -/
  fresh : ∀ id ∈ order, decoded.size ≤ id → (p.fetch id).offset = -1

/-- Whether the last instruction of an order is a decoded one. -/
def endsDecoded (decoded : Pool) (order : List Nat) : Bool :=
  order.getLast?.any (· < decoded.size)

/-- Whether a clause over decoded code is lost: it reaches the end of that code, and a new
instruction stands last. -/
def cutsOff (decoded : Pool) (code : Bytes) (order : List Nat) (c : Clause) : Bool :=
  !decoded.endsDecoded order && (code.length : Int) ∈ c.boundaries

/-- What boundaries of decoded code have become: the start of an instruction is where it starts now,
and the end is the new end. -/
inductive Carries (decoded q : Pool) (code : Bytes) (codeSize : Nat) : Int → Int → Prop where
  /-- An instruction started there. -/
  | start {id : Nat} (h : id < decoded.size) :
      Carries decoded q code codeSize (decoded.fetch id).offset (q.fetch id).offset
  /-- The code ended there. -/
  | stop : Carries decoded q code codeSize code.length codeSize

namespace IsInserted

variable {scope : Scope} {owner : String} {code : Bytes} {chunks : List Chunk}
  {decoded p q : Pool} {order : List Nat}

/-- Every decoded instruction is still in the order. -/
theorem mem_order (h : decoded.IsInserted p order) {id : Nat} (hid : id < decoded.size) :
    id ∈ order := by
  have hmem : id ∈ order.filter (· < decoded.size) := by
    rw [h.inOrder]
    exact List.mem_range.mpr hid
  exact (List.mem_filter.mp hmem).1

/-- A decoded instruction that stands last is the last decoded one. -/
theorem getLast?_range (h : decoded.IsInserted p order) {id : Nat}
    (hlast : order.getLast? = some id) (hid : id < decoded.size) :
    (List.range decoded.size).getLast? = some id := by
  obtain ⟨before, rfl⟩ := List.getLast?_eq_some_iff.mp hlast
  rw [← h.inOrder, List.filter_append, List.filter_cons_of_pos (by simpa using hid),
    List.filter_nil, List.getLast?_concat]

/-- The former end of the order is the end of the code when a decoded instruction stands last, and
unknown otherwise. -/
theorem stop_eq (h : decoded.IsInserted p order) (hp : DecodesTo scope owner chunks decoded)
    (hc : Parses code chunks) : (FormerPlaces.ofOrder p order).stop =
      if decoded.endsDecoded order then (code.length : Int) else -1 := by
  have hlists := hp.lists hc.complete
  rw [endsDecoded]
  cases hlast : order.getLast? with
  | none => simp [FormerPlaces.ofOrder, hlast]
  | some id =>
    simp only [FormerPlaces.ofOrder, hlast, Option.any_some, decide_eq_true_eq]
    by_cases hid : id < decoded.size
    · have htabled := (hp.isClosed hc.complete).tabled id (List.mem_range.mpr hid)
      obtain ⟨hpos, hend⟩ := hlists.isLaidOut.getLast (h.getLast?_range hlast hid)
      rw [hlists.codeSize hc, sizeOf_of_table htabled] at hend
      rw [if_pos hid, h.fetch id hid, if_pos hpos, sizeOf_of_table htabled, hend]
    · rw [if_neg hid, h.fresh id (List.mem_of_getLast? hlast) (by omega), if_neg (by decide)]

/-- An instruction of the order that stood within the code is a decoded one. -/
theorem lt_size (h : decoded.IsInserted p order) {id : Nat} (hid : id ∈ order)
    (hpos : 0 ≤ (p.fetch id).offset) : id < decoded.size := by
  by_contra hnot
  rw [h.fresh id hid (by omega)] at hpos
  omega

/-- The start of a decoded instruction becomes its new offset. -/
theorem moved?_start (h : decoded.IsInserted p order) (hp : DecodesTo scope owner chunks decoded)
    (hc : Parses code chunks) {id : Nat} (hid : id < decoded.size) :
    p.moved? q order (decoded.fetch id).offset = some (q.fetch id).offset := by
  have hlists := hp.lists hc.complete
  obtain ⟨hpos, hlt⟩ := hlists.offset_bounds hc hid
  have hne : (decoded.fetch id).offset ≠ (FormerPlaces.ofOrder p order).stop := by
    rw [h.stop_eq hp hc]
    split <;> omega
  rcases p.moved?_of_ne_stop q hpos hne with ⟨other, hother, heq, hmoved⟩ | ⟨hno, -⟩
  · have hinside := h.lt_size hother (heq ▸ hpos)
    rw [h.fetch other hinside] at heq
    rw [hmoved, hlists.offset_inj hinside hid heq]
  · exact absurd (by rw [h.fetch id hid]) (hno id (h.mem_order hid))

/-- The end of the decoded code becomes the new end when a decoded instruction stands last, and
nothing otherwise. -/
theorem moved?_stop (h : decoded.IsInserted p order) (hp : DecodesTo scope owner chunks decoded)
    (hc : Parses code chunks) : p.moved? q order code.length =
      if decoded.endsDecoded order then some (q.startIn order order.length : Int) else none := by
  have hstop := h.stop_eq hp hc
  split
  · rename_i hlast
    rw [if_pos hlast] at hstop
    rw [moved?, FormerPlaces.carry?, hstop, if_pos rfl]
  · rename_i hlast
    rw [if_neg hlast] at hstop
    have hpos := Int.natCast_nonneg code.length
    have hne : (code.length : Int) ≠ (FormerPlaces.ofOrder p order).stop := by omega
    rcases p.moved?_of_ne_stop q hpos hne with ⟨id, hid, heq, -⟩ | ⟨-, hnone⟩
    · -- A decoded instruction stands before the end, and a new one stands nowhere.
      have hinside := h.lt_size hid (heq ▸ hpos)
      have hlt := ((hp.lists hc.complete).offset_bounds hc hinside).2
      rw [h.fetch id hinside] at heq
      omega
    · exact hnone

end IsInserted

end Pool

/-- New instructions were put into decoded code, and its clauses start and end between instructions
of it. When each instruction has a size and each short branch a target, the order is laid out. The
clauses are kept then, in their order and boundary by boundary, but for those that reach the end of
the decoded code when a new instruction stands last. So all are kept exactly when a decoded
instruction stands last or no clause reaches the end. -/
theorem layOut_inserted {scope : Scope} {owner : String} {code : Bytes} {decoded p : Pool}
    {order : List Nat} {clauses : List Clause} (hdecode : decode scope owner code = .ok decoded)
    (hinserted : decoded.IsInserted p order)
    (hclauses : ∀ c ∈ clauses, ∀ offset ∈ c.boundaries,
      (∃ id < decoded.size, (decoded.fetch id).offset = offset) ∨ offset = code.length) :
    ((∀ id ∈ order, p.sizeFault? (p.fetch id) = none) →
      (∀ id ∈ order, (p.fetch id).opcode.isShortBranch → (p.fetch id).isDangling = false) →
      ∃ layout q, (layOut order clauses).Ends p layout q) ∧
    ∀ layout q, (layOut order clauses).Ends p layout q →
      List.Forall₂ (Clause.Carried (decoded.Carries q code layout.codeSize))
        (clauses.filter fun c => !decoded.cutsOff code order c) layout.clauses ∧
      layout.dropped = clauses.filter (decoded.cutsOff code order) ∧
      (layout.dropped = [] ↔
        decoded.endsDecoded order ∨ ∀ c ∈ clauses, (code.length : Int) ∉ c.boundaries) := by
  obtain ⟨chunks, hparses, hp⟩ := decode_eq_ok.mp hdecode
  refine ⟨fun hsize htarget => ?_, fun layout q hends => ?_⟩
  · have hout := layOut_eq clauses hsize htarget
    exact ⟨_, _, by rw [hout], by rw [hout]⟩
  obtain ⟨-, rfl⟩ := layout_of_ends hends
  rw [← Pool.startIn_length]
  have hkept : ∀ c ∈ clauses, !decoded.cutsOff code order c →
      ∃ c', c.carry? (p.moved? q order) = some c' ∧
        c.Carried (decoded.Carries q code (q.startIn order order.length)) c' := by
    intro c hc hkeeps
    refine Clause.exists_carried fun offset ho => ?_
    rcases hclauses c hc offset ho with ⟨id, hid, rfl⟩ | rfl
    · exact ⟨_, hinserted.moved?_start hp hparses hid, .start hid⟩
    · have hlast : decoded.endsDecoded order := by simpa [Pool.cutsOff, ho] using hkeeps
      exact ⟨_, by rw [hinserted.moved?_stop hp hparses, if_pos hlast], .stop⟩
  have hdropped : ∀ c ∈ clauses, (!decoded.cutsOff code order c) = false →
      c.carry? (p.moved? q order) = none := by
    intro c _ hcut
    simp only [Pool.cutsOff, Bool.not_eq_false', Bool.and_eq_true, Bool.not_eq_true',
      decide_eq_true_eq] at hcut
    exact Clause.carry?_eq_none hcut.2
      (by rw [hinserted.moved?_stop hp hparses, if_neg (by simp [hcut.1])])
  have hdrops : (clauses.filter fun c => (c.carry? (p.moved? q order)).isNone) =
      clauses.filter (decoded.cutsOff code order) := by
    apply List.filter_congr
    intro c hc
    cases hcut : decoded.cutsOff code order c with
    | false =>
      obtain ⟨c', hc', -⟩ := hkept c hc (by simp [hcut])
      rw [hc', Option.isNone_some]
    | true => rw [hdropped c hc (by simp [hcut]), Option.isNone_none]
  refine ⟨Sequence.forall₂_filter_filterMap hkept hdropped, hdrops, ?_⟩
  change (clauses.filter fun c => (c.carry? (p.moved? q order)).isNone) = [] ↔ _
  rw [hdrops, List.filter_eq_nil_iff]
  cases hlast : decoded.endsDecoded order <;> simp [Pool.cutsOff, hlast]

/-- A branch over a return to a protected block that leaves to it, and the handler at the end. -/
def handlerCode : Bytes := [0x2B, 0x01, 0x2A, 0x00, 0xDE, 0xFC, 0xDC]

/-- The instructions of that code. -/
def handlerInstructions : Pool :=
  #[⟨⟨0x2B, "br.s", .shortBranch, some 0, some 0, .branch⟩, .target 2, 0, 0⟩,
    ⟨⟨0x2A, "ret", .nothing, some 0, some 0, .returns⟩, .nothing, 2, 1⟩, ⟨.nop, .nothing, 3, 2⟩,
    ⟨⟨0xDE, "leave.s", .shortBranch, some 0, some 0, .branch⟩, .target 1, 4, 3⟩,
    ⟨⟨0xDC, "endfinally", .nothing, some 0, some 0, .returns⟩, .nothing, 6, 4⟩]

/-- The code decodes. -/
theorem decode_handlerCode : decode .empty "" handlerCode = .ok handlerInstructions :=
  Sequence.toOption_eq_some.mp (by decide +kernel)

/-- With a new instruction in front of the code its clause is kept, behind the last instruction of
the code a new one loses it. -/
theorem layOut_inserted_of_handler :
    let p : Pool := handlerInstructions.push ⟨.nop, .nothing, -1, -1⟩
    let clauses : List Clause := [⟨2, 3, 3, 6, 1, 0⟩]
    (∃ layout q, (layOut [5, 0, 1, 2, 3, 4] clauses).Ends p layout q ∧ layout.dropped = []) ∧
      ∃ layout q, (layOut [0, 1, 2, 3, 4, 5] clauses).Ends p layout q ∧
        layout.dropped = clauses := by
  intro p clauses
  have hclauses : ∀ c ∈ clauses, ∀ offset ∈ c.boundaries,
      (∃ id < handlerInstructions.size, (handlerInstructions.fetch id).offset = offset) ∨
        offset = handlerCode.length := by
    decide
  have hinFront : handlerInstructions.IsInserted p [5, 0, 1, 2, 3, 4] :=
    ⟨by decide, by decide, by decide⟩
  have hinBack : handlerInstructions.IsInserted p [0, 1, 2, 3, 4, 5] :=
    ⟨by decide, by decide, by decide⟩
  obtain ⟨hfront, hfrontEnds⟩ := layOut_inserted decode_handlerCode hinFront hclauses
  obtain ⟨hback, hbackEnds⟩ := layOut_inserted decode_handlerCode hinBack hclauses
  obtain ⟨layout, q, hends⟩ := hfront (by decide) (by decide)
  obtain ⟨layout', q', hends'⟩ := hback (by decide) (by decide)
  refine ⟨⟨layout, q, hends, ?_⟩, layout', q', hends', ?_⟩
  · exact (hfrontEnds layout q hends).2.2.mpr (Or.inl (by decide))
  · rw [(hbackEnds layout' q' hends').2.1]
    decide

/-- A clause of decoded code may be lost though all its instructions are still there. -/
theorem layOut_loses_handler :
    ¬ ∀ (scope : Scope) (owner : String) (code : Bytes) (decoded p : Pool) (order : List Nat)
      (clauses : List Clause), decode scope owner code = .ok decoded →
      decoded.IsInserted p order →
      (∀ c ∈ clauses, ∀ offset ∈ c.boundaries,
        (∃ id < decoded.size, (decoded.fetch id).offset = offset) ∨ offset = code.length) →
      ∀ layout q, (layOut order clauses).Ends p layout q → layout.dropped = [] := by
  intro h
  have hrun : (layOut [0, 1, 2, 3, 4, 5] [⟨2, 3, 3, 6, 1, 0⟩]
      (handlerInstructions.push ⟨.nop, .nothing, -1, -1⟩)).result.toOption =
        some ⟨8, [], [⟨2, 3, 3, 6, 1, 0⟩]⟩ := by
    decide +kernel
  have hnone := h .empty "" handlerCode handlerInstructions _ _ _ decode_handlerCode
    ⟨by decide, by decide, by decide⟩ (by decide) _ _ ⟨Sequence.toOption_eq_some.mp hrun, rfl⟩
  cases hnone

end CilRestore
