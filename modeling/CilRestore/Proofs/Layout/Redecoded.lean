import CilRestore.Proofs.Code.Fitting
import CilRestore.Proofs.Layout.Settled

/-!
# Decoding what was laid out

An order of instructions whose operands fit, once it is laid out, is written as code that decodes
to the same instructions: place by place with the same opcodes, offsets and operands, and with
targets at the places that they have in the order. Widening changes the opcodes of branches and the
offsets, but not where a branch goes.
-/

namespace CilRestore

/-- An operand with the places of its targets in an order for the targets. -/
def Operand.placed (order : List Nat) : Operand → Operand
  | .target id => .target (order.idxOf id)
  | .targets ids => .targets (ids.map order.idxOf)
  | operand => operand

/-- Distinct instructions of a pool that can be written: their opcodes are defined, their operands
fit, and they only go to one another. -/
structure Pool.IsWritable (scope : Scope) (p : Pool) (order : List Nat) : Prop where
  /-- No instruction occurs twice. -/
  nodup : order.Nodup
  /-- All are of the pool. -/
  inside : ∀ id ∈ order, id < p.size
  /-- Opcodes are defined. -/
  defined : p.IsDefined order
  /-- Operands fit. -/
  fits : ∀ id ∈ order, (p.fetch id).operand.Fits scope (p.fetch id).opcode
  /-- Targets are of the order. -/
  targets : ∀ id ∈ order, ∀ target ∈ (p.fetch id).targets, target ∈ order

/-- A chunk is what an instruction is written as. -/
structure Chunk.Writes (scope : Scope) (p : Pool) (id : Nat) (c : Chunk) : Prop where
  /-- The chunk is complete. -/
  complete : c.IsComplete
  /-- It has the opcode of the instruction. -/
  opcode : c.opcode = (p.fetch id).opcode
  /-- It takes as many bytes. -/
  size_eq : c.size = p.sizeOf (p.fetch id)
  /-- The instruction is written as its bytes. -/
  encode : p.encode (p.fetch id) = .ok c.bytes
  /-- It names the offsets of the targets, when it stands where the instruction does. -/
  targets : ∀ start : Nat, (p.fetch id).offset = start →
    c.targets start = (p.fetch id).targets.map fun target => (p.fetch target).offset
  /-- An operand without targets is read back. -/
  plain : ¬ c.opcode.isSwitch → ¬ c.opcode.isBranch → ∀ (owner : String) (start stop : Nat),
    Decode.operand scope owner start stop c.opcode c.operand = .ok (.ready (p.fetch id).operand)

section redecoded

variable {scope : Scope} {p q : Pool} {order : List Nat}

namespace Operand.Fits

variable {op : Opcode} {operand : Operand}

/-- What fits a switch is a table. -/
theorem of_isSwitch (h : operand.Fits scope op) (hs : op.isSwitch) :
    ∃ ids, operand = .targets ids := by
  have hk : op.operand = .switch := by simpa [Opcode.isSwitch] using hs
  simpa only [Fits, hk] using h

/-- What fits a branch is a target. -/
theorem of_isBranch (h : operand.Fits scope op) (hb : op.isBranch) :
    ∃ id, operand = .target id := by
  have hk : op.operand = .shortBranch ∨ op.operand = .branch := by
    simpa [Opcode.isBranch] using hb
  rcases hk with hk | hk <;> simpa only [Fits, hk] using h

/-- An operand with targets fits branches and switches only. -/
theorem placed_eq_self (h : operand.Fits scope op) (hs : ¬ op.isSwitch) (hb : ¬ op.isBranch)
    (order : List Nat) : operand.placed order = operand := by
  simp only [Opcode.isSwitch, Opcode.isBranch, Bool.or_eq_true, beq_iff_eq, not_or] at hs hb
  cases operand with
  | target id =>
    unfold Fits at h
    split at h <;> simp_all [Operand.IsToken]
  | targets ids =>
    unfold Fits at h
    split at h <;> simp_all [Operand.IsToken]
  | _ => rfl

/-- What fits a short branch fits the long one. -/
theorem widened (h : operand.Fits scope op) (hd : op ∈ Opcode.all) (hs : op.isShortBranch) :
    operand.Fits scope op.widened := by
  have hk : op.operand = .shortBranch := by simpa [Opcode.isShortBranch] using hs
  have hw := (Opcode.widened_of_isShortBranch op hd hs).2
  simp only [Fits, hk] at h
  simpa only [Fits, hw] using h

/-- An operand that fits gives the instruction a size and a branch its target. -/
theorem intact (h : operand.Fits scope op) (offset index : Int) :
    (Instruction.mk op operand offset index).lacksTable = false ∧
      (Instruction.mk op operand offset index).isDangling = false := by
  constructor
  · by_cases hs : op.isSwitch
    · obtain ⟨ids, rfl⟩ := h.of_isSwitch hs
      simp [Instruction.lacksTable, Operand.targets?]
    · simp [Instruction.lacksTable, hs]
  · by_cases hb : op.isBranch
    · obtain ⟨id, rfl⟩ := h.of_isBranch hb
      simp [Instruction.isDangling, Operand.target?]
    · simp [Instruction.isDangling, hb]

end Operand.Fits

namespace Pool

/-- Widening keeps an order writable. -/
theorem IsWritable.of_isWidening (h : IsWritable scope p order) (hw : IsWidening order p q) :
    IsWritable scope q order where
  nodup := h.nodup
  inside id hid := by
    rw [hw.size_eq]
    exact h.inside id hid
  defined := hw.isDefined h.defined
  fits id hid := by
    rw [hw.operand]
    rcases hw.opcode id with he | ⟨_, hs, he⟩
    · rw [he]
      exact h.fits id hid
    · rw [he]
      exact (h.fits id hid).widened (h.defined id hid) hs
  targets id hid target ht := by
    rw [hw.targets h.defined] at ht
    exact h.targets id hid target ht

/-- The branches of an order that can be written go to its own instructions. -/
theorem IsWritable.isClosed (h : IsWritable scope p order) : IsClosed p order where
  inside := h.inside
  defined := h.defined
  aims id hid := ((h.fits id hid).intact _ _).2
  tabled id hid := ((h.fits id hid).intact _ _).1
  targets := h.targets

/-- An order that can be written can be laid out. -/
theorem IsWritable.layOut (h : IsWritable scope p order) (clauses : List Clause) :
    ∃ layout q lines, layOut order clauses p = ⟨.ok layout, q, lines⟩ ∧ IsWidening order p q ∧
      IsLaidOut q order ∧ (∀ id ∈ order, q.isFar id = false) ∧
      layout.codeSize = q.startIn order order.length := by
  obtain ⟨layout, q, lines, hout, hwide, hsettled, -, hsize, -⟩ :=
    h.isClosed.layOut_settles h.nodup clauses
  exact ⟨layout, q, lines, hout, hwide, hsettled.laidOut, hsettled.near, hsize⟩

/-- No target of a laid out order lies farther away than the order is long. -/
theorem IsLaidOut.displacement_range (hl : IsLaidOut q order) {id target : Nat} (hid : id ∈ order)
    (ht : target ∈ order) (hlacks : (q.fetch id).lacksTable = false) :
    -(q.startIn order order.length : Int) ≤ q.displacement (q.fetch id) target ∧
      q.displacement (q.fetch id) target ≤ q.startIn order order.length := by
  obtain ⟨place, hplace⟩ := List.mem_iff_getElem?.mp hid
  obtain ⟨other, hother⟩ := List.mem_iff_getElem?.mp ht
  have hlt := (List.getElem?_eq_some_iff.mp hplace).1
  have hlt' := (List.getElem?_eq_some_iff.mp hother).1
  have hend := startIn_le (p := q) order (show place + 1 ≤ order.length by omega)
  have hto := startIn_le (p := q) order (Nat.le_of_lt hlt')
  rw [hl.displacement_eq hplace hother hlacks]
  omega

/-- An instruction takes no more bytes than its order. -/
theorem sizeOf_le_startIn {id : Nat} (hid : id ∈ order) :
    q.sizeOf (q.fetch id) ≤ q.startIn order order.length := by
  obtain ⟨place, hplace⟩ := List.mem_iff_getElem?.mp hid
  have hlt := (List.getElem?_eq_some_iff.mp hplace).1
  have hend := startIn_le (p := q) order (show place + 1 ≤ order.length by omega)
  have hnext := startIn_succ (p := q) hplace
  omega

end Pool

/-- A table of entries of four bytes is read as the numbers that they spell. -/
theorem displacements_flatten {entries : List Bytes} (h : ∀ entry ∈ entries, entry.length = 4) :
    displacements entries.length entries.flatten = entries.map Bytes.signed := by
  induction entries with
  | nil => rfl
  | cons entry rest ih =>
    have hl : entry.length = 4 := h entry (by simp)
    rw [List.length_cons, displacements, List.flatten_cons, List.take_left' hl,
      List.drop_left' hl, ih fun x hx => h x (by simp [hx])]
    rfl

theorem length_flatten_entries {entries : List Bytes} (h : ∀ entry ∈ entries, entry.length = 4) :
    entries.flatten.length = 4 * entries.length := by
  induction entries with
  | nil => rfl
  | cons entry rest ih =>
    rw [List.flatten_cons, List.length_append, h entry (by simp), ih fun x hx => h x (by simp [hx]),
      List.length_cons]
    omega

/-- Numbers that fit in four bytes are written as entries of a table, which spell them. -/
theorem exists_entries {ids : List Nat} {number : Nat → Int}
    (h : ∀ id ∈ ids, -2 ^ 31 ≤ number id ∧ number id < 2 ^ 31) :
    ∃ entries : List Bytes,
      List.Forall₂ (fun id entry => Bytes.signed? 4 (number id) = some entry) ids entries ∧
        (∀ entry ∈ entries, entry.length = 4) ∧ entries.map Bytes.signed = ids.map number := by
  have hentry : ∀ id ∈ ids, ∃ entry : Bytes, Bytes.signed? 4 (number id) = some entry ∧
      entry.length = 4 ∧ Bytes.signed entry = number id := by
    intro id hid
    obtain ⟨hlow, hhigh⟩ := h id hid
    exact Bytes.signed?_of_range _ (by norm_num; omega) (by norm_num; omega)
  obtain ⟨entries, hall⟩ := Sequence.exists_forall₂ hentry
  refine ⟨entries, hall.imp fun _ _ h => h.1, fun entry hm => ?_, ?_⟩
  · obtain ⟨_, _, _, hl, _⟩ := Sequence.exists_mem_of_forall₂ hall.flip hm
    exact hl
  · exact Sequence.map_eq_map_of_forall₂ (hall.flip.imp fun _ _ h => h.2.2)

namespace Chunk.Writes

/-- A switch whose targets are near enough is written as a table. -/
theorem of_switch {id : Nat} {ids : List Nat} (hd : (p.fetch id).opcode ∈ Opcode.all)
    (hs : (p.fetch id).opcode.isSwitch) (ho : (p.fetch id).operand = .targets ids)
    (hcount : ids.length < 2 ^ 32) (hrange : ∀ target ∈ ids,
      -2 ^ 31 ≤ p.displacement (p.fetch id) target ∧ p.displacement (p.fetch id) target < 2 ^ 31) :
    ∃ c : Chunk, c.Writes scope p id := by
  have hk : (p.fetch id).opcode.operand = .switch := by simpa [Opcode.isSwitch] using hs
  have hnb := Opcode.not_isBranch_of_isSwitch hs
  have hlacks : (p.fetch id).lacksTable = false := by
    simp [Instruction.lacksTable, ho, Operand.targets?]
  have hsize : (p.fetch id).size = (p.fetch id).opcode.size + 4 + 4 * ids.length := by
    simp [Instruction.size, hs, ho, Operand.targets?]
  obtain ⟨entries, hall, hlen, hsigned⟩ := exists_entries hrange
  obtain ⟨head, hhead, hheadlen, hnumber⟩ :=
    Bytes.unsigned?_of_range 4 (n := ids.length) (by omega) (by exact_mod_cast hcount)
  have hcount' : Bytes.number ((head ++ entries.flatten).take 4) = ids.length := by
    rw [List.take_left' hheadlen]
    exact_mod_cast hnumber
  have hflat := length_flatten_entries hlen
  rw [← hall.length_eq] at hflat
  refine ⟨⟨(p.fetch id).opcode, head ++ entries.flatten⟩, ?_⟩
  constructor
  · refine ⟨hd, ?_⟩
    rw [if_pos hs, List.length_append, hheadlen, hflat, Chunk.entryCount, hcount']
  · rfl
  · simp only [Pool.sizeOf_of_table hlacks, hsize, Chunk.size, List.length_append, hheadlen, hflat]
    omega
  · refine Sequence.map_eq_ok.mpr ⟨head ++ entries.flatten, ?_, rfl⟩
    simp only [Pool.encodeOperand, hk, Pool.encodeTable, ho, Operand.targets?]
    refine Sequence.bind_eq_ok.mpr ⟨head, by rw [hhead, fitting_some],
      Sequence.bind_eq_ok.mpr ⟨entries, ?_, rfl⟩⟩
    exact Sequence.mapM_eq_ok.mpr (hall.imp fun _ _ h => by rw [h, fitting_some])
  · intro start hstart
    have hstop :
        ((start + (⟨(p.fetch id).opcode, head ++ entries.flatten⟩ : Chunk).size : Nat) : Int)
        = (p.fetch id).offset + (p.fetch id).size := by
      simp only [hstart, hsize, Chunk.size, List.length_append, hheadlen, hflat]
      omega
    rw [Chunk.targets, if_pos hs, hstop, Chunk.entryCount, hcount', List.drop_left' hheadlen,
      hall.length_eq, displacements_flatten hlen, hsigned, List.map_map, Instruction.targets,
      if_neg hnb, if_pos hs, ho]
    apply List.map_congr_left
    intro target _
    simp only [Function.comp_apply, Pool.displacement]
    omega
  · intro hns
    exact absurd hs hns

/-- A branch whose target is near enough for it is written as a displacement. -/
theorem of_branch {id target : Nat} (hd : (p.fetch id).opcode ∈ Opcode.all)
    (hb : (p.fetch id).opcode.isBranch) (ho : (p.fetch id).operand = .target target)
    (hrange : -2 ^ 31 ≤ p.displacement (p.fetch id) target ∧
      p.displacement (p.fetch id) target < 2 ^ 31) (hfar : p.isFar id = false) :
    ∃ c : Chunk, c.Writes scope p id := by
  have hs : ¬ (p.fetch id).opcode.isSwitch := Opcode.not_isSwitch_of_isBranch hb
  have hlacks : (p.fetch id).lacksTable = false := by simp [Instruction.lacksTable, hs]
  have hsize : (p.fetch id).size = (p.fetch id).opcode.size + (p.fetch id).opcode.operand.size := by
    simp [Instruction.size, hs]
  have hwritten : ∃ bs : Bytes, p.encodeOperand (p.fetch id) = .ok bs ∧
      bs.length = (p.fetch id).opcode.operand.size ∧
      Bytes.signed bs = p.displacement (p.fetch id) target := by
    have hk : (p.fetch id).opcode.operand = .shortBranch ∨
        (p.fetch id).opcode.operand = .branch := by
      simpa [Opcode.isBranch] using hb
    rcases hk with hk | hk
    · have hreach : Pool.reaches (p.displacement (p.fetch id) target) := by
        simpa [Pool.isFar, Opcode.isShortBranch, hk, ho, Operand.target?, Pool.displacement]
          using hfar
      simp only [Pool.reaches, Bool.and_eq_true, decide_eq_true_eq] at hreach
      obtain ⟨bs, hw, hl, hr⟩ := Bytes.signed?_of_range 1
        (n := p.displacement (p.fetch id) target) (by norm_num; omega) (by norm_num; omega)
      refine ⟨bs, ?_, by rw [hl, hk]; rfl, hr⟩
      simp only [Pool.encodeOperand, hk, Pool.encodeBranch, ho, Operand.target?, hw, fitting_some]
    · obtain ⟨bs, hw, hl, hr⟩ := Bytes.signed?_of_range 4
        (n := p.displacement (p.fetch id) target) (by norm_num; omega) (by norm_num; omega)
      refine ⟨bs, ?_, by rw [hl, hk]; rfl, hr⟩
      simp only [Pool.encodeOperand, hk, Pool.encodeBranch, ho, Operand.target?, hw, fitting_some]
  obtain ⟨bs, hw, hl, hr⟩ := hwritten
  refine ⟨⟨(p.fetch id).opcode, bs⟩, ?_⟩
  constructor
  · exact ⟨hd, by rw [if_neg hs, hl]⟩
  · rfl
  · rw [Pool.sizeOf_of_table hlacks, hsize, Chunk.size, hl]
  · exact Sequence.map_eq_ok.mpr ⟨bs, hw, rfl⟩
  · intro start hstart
    have hstop : ((start + (⟨(p.fetch id).opcode, bs⟩ : Chunk).size : Nat) : Int)
        = (p.fetch id).offset + (p.fetch id).size := by
      simp only [hstart, hsize, Chunk.size, hl]
      omega
    rw [Chunk.targets, if_neg hs, if_pos hb, hstop, hr, Instruction.targets, if_pos hb, ho,
      Pool.displacement]
    simp only [Operand.target?, Option.toList_some, List.map_cons, List.map_nil, List.cons.injEq,
      and_true]
    omega
  · intro _ hnb
    exact absurd hb hnb

/-- An operand without targets that fits is written in its bytes. -/
theorem of_plain {id : Nat} (hd : (p.fetch id).opcode ∈ Opcode.all)
    (hs : ¬ (p.fetch id).opcode.isSwitch) (hb : ¬ (p.fetch id).opcode.isBranch)
    (hfits : (p.fetch id).operand.Fits scope (p.fetch id).opcode) :
    ∃ c : Chunk, c.Writes scope p id := by
  obtain ⟨bs, hl, hw, hr⟩ := hfits.written_read hs hb
  have hlacks : (p.fetch id).lacksTable = false := by simp [Instruction.lacksTable, hs]
  refine ⟨⟨(p.fetch id).opcode, bs⟩, ?_⟩
  constructor
  · exact ⟨hd, by rw [if_neg hs, hl]⟩
  · rfl
  · rw [Pool.sizeOf_of_table hlacks, Chunk.size, hl, Instruction.size, if_neg hs]
  · exact Sequence.map_eq_ok.mpr ⟨bs, hw p _ _, rfl⟩
  · intro start _
    rw [Chunk.targets, if_neg hs, if_neg hb, Instruction.targets, if_neg hb, if_neg hs,
      List.map_nil]
  · exact fun _ _ owner start stop => hr owner start stop

end Chunk.Writes

/-! ### The chunks of an order -/

/-- A laid out order that can be written and is not too long is written as chunks. -/
theorem Pool.IsWritable.exists_writes (h : IsWritable scope p order) (hl : IsLaidOut p order)
    (hfar : ∀ id ∈ order, p.isFar id = false) (hsmall : p.startIn order order.length < 2 ^ 31) :
    ∃ chunks, List.Forall₂ (fun id (c : Chunk) => c.Writes scope p id) order chunks := by
  apply Sequence.exists_forall₂
  intro id hid
  have hfits := h.fits id hid
  have hlacks : (p.fetch id).lacksTable = false := (hfits.intact _ _).1
  have hrange : ∀ target ∈ (p.fetch id).targets,
      -2 ^ 31 ≤ p.displacement (p.fetch id) target ∧
        p.displacement (p.fetch id) target < 2 ^ 31 := by
    intro target ht
    have := hl.displacement_range hid (h.targets id hid target ht) hlacks
    omega
  by_cases hs : (p.fetch id).opcode.isSwitch
  · obtain ⟨ids, ho⟩ := hfits.of_isSwitch hs
    have ht : (p.fetch id).targets = ids := by
      rw [Instruction.targets, if_neg (Opcode.not_isBranch_of_isSwitch hs), if_pos hs, ho]
      rfl
    have hsize := sizeOf_le_startIn (q := p) hid
    rw [sizeOf_of_table hlacks, Instruction.size, if_pos hs, ho] at hsize
    simp only [Operand.targets?, Option.getD_some] at hsize
    exact Chunk.Writes.of_switch (h.defined id hid) hs ho (by omega) (ht ▸ hrange)
  · by_cases hb : (p.fetch id).opcode.isBranch
    · obtain ⟨target, ho⟩ := hfits.of_isBranch hb
      have ht : (p.fetch id).targets = [target] := by
        rw [Instruction.targets, if_pos hb, ho]
        rfl
      rw [ht] at hrange
      exact Chunk.Writes.of_branch (h.defined id hid) hb ho (hrange target (by simp)) (hfar id hid)
    · exact Chunk.Writes.of_plain (h.defined id hid) hs hb hfits

section writes

variable {chunks : List Chunk}
  (hw : List.Forall₂ (fun id (c : Chunk) => c.Writes scope p id) order chunks)

include hw

/-- The chunks begin where the instructions stand. -/
theorem Chunk.startOf_of_writes (place : Nat) : startOf chunks place = p.startIn order place := by
  induction hw generalizing place with
  | nil => simp [startOf, Pool.startIn]
  | cons hfirst _ ih =>
    cases place with
    | zero => rw [startOf_zero, Pool.startIn_zero]
    | succ place => rw [startOf_cons_succ, Pool.startIn_cons_succ, ih, hfirst.size_eq]

/-- Instructions that write chunks are encoded as their bytes. -/
theorem Chunk.encodeAll_of_writes : p.encodeAll order = .ok (join chunks) := by
  refine Sequence.map_eq_ok.mpr ⟨chunks.map bytes, Sequence.mapM_eq_ok.mpr ?_, rfl⟩
  rw [List.forall₂_map_right_iff]
  exact hw.imp fun _ _ h => h.encode

/-- A target of a laid out order stands where the chunk at its place begins. -/
theorem Chunk.offset_of_writes (hl : p.IsLaidOut order) {target : Nat} (ht : target ∈ order) :
    order.idxOf target < chunks.length ∧
      (p.fetch target).offset = (startOf chunks (order.idxOf target) : Int) := by
  have hlt := List.idxOf_lt_length_of_mem ht
  refine ⟨by rwa [← hw.length_eq], ?_⟩
  have hplace : order[order.idxOf target]? = some target := by
    rw [List.getElem?_eq_getElem hlt, List.getElem_idxOf hlt]
  rw [startOf_of_writes hw, hl.offset _ _ hplace]

/-- The chunks decode to the instructions at their places. -/
theorem Chunk.decodesTo_of_writes (h : p.IsWritable scope order) (hl : p.IsLaidOut order)
    (owner : String) : DecodesTo scope owner chunks (order.mapIdx fun place id =>
      Instruction.mk (p.fetch id).opcode ((p.fetch id).operand.placed order) (p.fetch id).offset
        (place : Nat)).toArray := by
  apply DecodesTo.of_becomes (by simp [hw.length_eq])
  intro place c hc
  obtain ⟨id, hid, hwrites⟩ := Sequence.getElem?_of_forall₂ hw.flip hc
  have hm := List.mem_of_getElem? hid
  have hoffset : (p.fetch id).offset = (startOf chunks place : Nat) := by
    rw [hl.offset place id hid, startOf_of_writes hw]
  have htargets := hwrites.targets _ hoffset
  have hfits := h.fits id hm
  refine ⟨(p.fetch id).operand.placed order, ?_, ?_⟩
  · by_cases hs : c.opcode.isSwitch
    · obtain ⟨ids, ho⟩ := hfits.of_isSwitch (hwrites.opcode ▸ hs)
      have ht : (p.fetch id).targets = ids := by
        rw [hwrites.opcode] at hs
        rw [Instruction.targets, if_neg (Opcode.not_isBranch_of_isSwitch hs), if_pos hs, ho]
        rfl
      rw [ho, Operand.placed]
      refine .switch _ hs ?_
      rw [htargets, ht, List.forall₂_map_left_iff, List.forall₂_map_right_iff, List.forall₂_same]
      intro target hmem
      exact offset_of_writes hw hl (h.targets id hm target (ht ▸ hmem))
    · by_cases hb : c.opcode.isBranch
      · obtain ⟨target, ho⟩ := hfits.of_isBranch (hwrites.opcode ▸ hb)
        have ht : (p.fetch id).targets = [target] := by
          rw [hwrites.opcode] at hb
          rw [Instruction.targets, if_pos hb, ho]
          rfl
        obtain ⟨hlt, hto⟩ := offset_of_writes hw hl (h.targets id hm target (by simp [ht]))
        rw [Chunk.targets, if_neg hs, if_pos hb, ht, List.map_cons, List.map_nil, hto] at htargets
        rw [ho, Operand.placed]
        exact .branch _ hb hlt (List.cons.inj htargets).1
      · rw [hfits.placed_eq_self (hwrites.opcode ▸ hs) (hwrites.opcode ▸ hb)]
        exact .plain _ hs hb (hwrites.plain hs hb owner _ _)
  · apply Pool.fetch_of_getElem?
    simp [hid, hwrites.opcode, hoffset]

end writes

end redecoded

/-! ### Laying out, writing and decoding -/

/-- Distinct instructions that can be written are laid out without fault, with some short branches
widened, and unless they take too many bytes they are written as code that decodes to them again:
at each place stands the opcode of the laid out instruction, its offset and its operand, the targets
of which are at the places that they have in the order. -/
theorem layOut_encodeAll_decode {scope : Scope} {p : Pool} {order : List Nat}
    (hwritable : p.IsWritable scope order) (clauses : List Clause) (owner : String) :
    ∃ layout q lines, layOut order clauses p = ⟨.ok layout, q, lines⟩ ∧
      Pool.IsWidening order p q ∧
      (layout.codeSize < 2 ^ 31 → ∃ code decoded, q.encodeAll order = .ok code ∧
        code.length = layout.codeSize ∧ decode scope owner code = .ok decoded ∧
        decoded.size = order.length ∧
        ∀ place id : Nat, order[place]? = some id →
          decoded.fetch place = ⟨(q.fetch id).opcode, (p.fetch id).operand.placed order,
            (q.fetch id).offset, place⟩) := by
  obtain ⟨layout, q, lines, hout, hwide, hlaid, hfar, hsize⟩ := hwritable.layOut clauses
  refine ⟨layout, q, lines, hout, hwide, ?_⟩
  intro hsmall
  have hq := hwritable.of_isWidening hwide
  obtain ⟨chunks, hw⟩ := hq.exists_writes hlaid hfar (hsize ▸ hsmall)
  have hdecodes := Chunk.decodesTo_of_writes hw hq hlaid owner
  refine ⟨Chunk.join chunks, _, Chunk.encodeAll_of_writes hw, ?_,
    decode_eq_ok.mpr ⟨chunks, ⟨?_, rfl⟩, hdecodes⟩, by simp, ?_⟩
  · rw [← Chunk.startOf_length, ← hw.length_eq, Chunk.startOf_of_writes hw, hsize]
  · intro c hm
    obtain ⟨_, _, hwrites⟩ := Sequence.exists_mem_of_forall₂ hw.flip hm
    exact hwrites.complete
  · intro place id hid
    rw [← hwide.operand]
    apply Pool.fetch_of_getElem?
    simp [hid]

/-- A short branch over a switch with so many entries that the branch is widened. -/
theorem layOut_encodeAll_decode_of_far :
    let scope : Scope := ⟨fun _ => none, fun _ => none⟩
    let p : Pool :=
      #[⟨⟨0x2B, "br.s", .shortBranch, some 0, some 0, .branch⟩, .target 2, -1, -1⟩,
      ⟨⟨0x45, "switch", .switch, some 1, some 0, .condBranch⟩, .targets (List.replicate 32 0),
        -1, -1⟩,
      ⟨⟨0x2A, "ret", .nothing, some 0, some 0, .returns⟩, .nothing, -1, -1⟩]
    p.IsWritable scope [0, 1, 2] ∧
      ∃ layout q lines, layOut [0, 1, 2] [] p = ⟨.ok layout, q, lines⟩ ∧
        layout.codeSize < 2 ^ 31 ∧ ∃ code decoded, q.encodeAll [0, 1, 2] = .ok code ∧
          decode scope "" code = .ok decoded ∧ decoded.fetch 0 =
            ⟨⟨0x38, "br", .branch, some 0, some 0, .branch⟩, .target 2, 0, 0⟩ := by
  intro scope p
  have hw : p.IsWritable scope [0, 1, 2] := by
    refine ⟨by decide, by decide, by unfold Pool.IsDefined; decide +kernel, ?_, by decide +kernel⟩
    simp only [List.forall_mem_cons]
    exact ⟨⟨2, rfl⟩, ⟨List.replicate 32 0, rfl⟩, rfl, by simp⟩
  obtain ⟨layout, q, lines, hout, _, h⟩ := layOut_encodeAll_decode hw [] ""
  have hrun : (layOut [0, 1, 2] [] p).result.toOption = some ⟨139, [], []⟩ ∧
      (layOut [0, 1, 2] [] p).state.fetch 0 =
        ⟨⟨0x38, "br", .branch, some 0, some 0, .branch⟩, .target 2, 0, 0⟩ := by
    decide +kernel
  rw [hout] at hrun
  simp only [Except.toOption, Option.some.injEq] at hrun
  have hsmall : layout.codeSize < 2 ^ 31 := by
    rw [hrun.1]
    decide
  obtain ⟨code, decoded, hcode, _, hdecoded, _, hfetch⟩ := h hsmall
  refine ⟨hw, layout, q, lines, hout, hsmall, code, decoded, hcode, hdecoded, ?_⟩
  rw [hfetch 0 0 rfl, hrun.2]
  rfl

end CilRestore
