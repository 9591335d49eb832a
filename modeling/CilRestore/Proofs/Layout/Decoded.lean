import CilRestore.Body.Basic
import CilRestore.Proofs.Body.Serialized
import CilRestore.Proofs.Layout.Settled

/-!
# Laying out decoded code

Decoded code is laid out already: its instructions follow each other from 0 on and its short
branches reach. So laying it out again moves and widens nothing, and what is written is the code
that was decoded. Clauses stay when their boundaries are boundaries of the code.
-/

namespace CilRestore

/-- A byte spells a displacement that a short branch can have. -/
theorem Bytes.reaches_signed {bs : Bytes} (h : bs.length = 1) : Pool.reaches (signed bs) := by
  have hlt := number_lt bs
  rw [h, Nat.pow_one] at hlt
  rw [signed, h, Pool.reaches]
  simp only [Nat.pow_one, Bool.and_eq_true, decide_eq_true_eq]
  split <;> omega

/-- The offsets at which an instruction starts or the last one ends. Where there is no instruction
there is no such offset. -/
def Pool.boundaries (p : Pool) (code : Bytes) : List Int :=
  if p.size = 0 then []
  else (List.range p.size).map (fun id => (p.fetch id).offset) ++ [(code.length : Int)]

/-- Some instruction of the code loads a signalling binary32 number. -/
def LoadsSignalling (code : Bytes) : Prop :=
  ∃ chunks, Parses code chunks ∧ ∃ c ∈ chunks, c.IsSignalling

section decoded

variable {scope : Scope} {owner : String} {code : Bytes} {chunks : List Chunk} {p : Pool}

/-! ### Where decoded instructions are -/

/-- Decoded instructions start where their chunks do. -/
theorem Lists.startIn (h : Lists chunks p) {place : Nat} (hp : place ≤ chunks.length) :
    p.startIn (List.range p.size) place = Chunk.startOf chunks place := by
  induction place with
  | zero => rw [Pool.startIn_zero, Chunk.startOf_zero]
  | succ place ih =>
    have hc := List.getElem?_eq_getElem (show place < chunks.length by omega)
    have hr : (List.range p.size)[place]? = some place := by
      rw [List.getElem?_range (by rw [h.size_eq]; omega)]
    rw [Pool.startIn_succ hr, ih (by omega), h.sizeOf place _ hc, Chunk.startOf_succ hc]

/-- Decoded code is as long as its instructions. -/
theorem Lists.codeSize (h : Lists chunks p) (hc : Parses code chunks) :
    p.startIn (List.range p.size) (List.range p.size).length = code.length := by
  rw [List.length_range, h.startIn (Nat.le_of_eq h.size_eq), h.size_eq, Chunk.startOf_length,
    hc.covers]

/-- So they are laid out already. -/
theorem Lists.isLaidOut (h : Lists chunks p) : p.IsLaidOut (List.range p.size) := by
  have hplace : ∀ place id : Nat, (List.range p.size)[place]? = some id →
      id = place ∧ place < chunks.length := by
    intro place id hr
    obtain ⟨hl, he⟩ := List.getElem?_eq_some_iff.mp hr
    rw [List.length_range, h.size_eq] at hl
    rw [List.getElem_range] at he
    exact ⟨he.symm, hl⟩
  constructor
  · intro place id hr
    obtain ⟨rfl, hl⟩ := hplace place id hr
    rw [h.offset _ _ (List.getElem?_eq_getElem hl), h.startIn (Nat.le_of_lt hl)]
  · intro place id hr
    obtain ⟨rfl, hl⟩ := hplace place id hr
    exact h.index _ _ (List.getElem?_eq_getElem hl)

/-- The offsets of decoded instructions. -/
theorem Lists.offsets (h : Lists chunks p) :
    ((List.range p.size).map fun id => (p.fetch id).offset) =
      (Chunk.starts chunks).map fun start : Nat => (start : Int) := by
  rw [Chunk.starts, List.map_map, h.size_eq]
  apply List.map_congr_left
  intro id hid
  exact h.offset id _ (List.getElem?_eq_getElem (List.mem_range.mp hid))

/-- A short branch that was decoded reaches its target, which it has. -/
theorem DecodesTo.reaches (h : DecodesTo scope owner chunks p) (hc : ∀ c ∈ chunks, c.IsComplete)
    {id : Nat} (hid : id < p.size) : p.isFar id = false ∧ (p.fetch id).isDangling = false := by
  rw [h.size_eq] at hid
  have hplace := List.getElem?_eq_getElem hid
  have hcc := hc _ (List.mem_of_getElem? hplace)
  obtain ⟨operand, hb, hfetch⟩ := h.becomes hplace
  obtain ⟨_, hsize⟩ := hb.size_eq hcc (Chunk.startOf chunks id : Nat) id
  have hdis := (h.lists hc).displacement hplace (by rw [hfetch, hsize])
  rw [hfetch] at hdis
  cases hb with
  | switch places hs hl =>
    have hn := Opcode.not_isBranch_of_isSwitch hs
    simp only [Opcode.isBranch, Bool.or_eq_true, beq_iff_eq, not_or] at hn
    constructor
    · simp [Pool.isFar, hfetch, Opcode.isShortBranch, hn.1]
    · simp [Instruction.isDangling, hfetch, Operand.target?, Opcode.isBranch, hn.1, hn.2]
  | plain operand hs hb hr =>
    simp only [Opcode.isBranch, Bool.or_eq_true, beq_iff_eq, not_or] at hb
    constructor
    · simp [Pool.isFar, hfetch, Opcode.isShortBranch, hb.1]
    · simp [Instruction.isDangling, hfetch, Opcode.isBranch, hb.1, hb.2]
  | branch other hb ho hl =>
    have hs : ¬ chunks[id].opcode.isSwitch := Opcode.not_isSwitch_of_isBranch hb
    have hd : p.displacement (p.fetch id) other = Bytes.signed chunks[id].operand := by
      rw [hfetch]
      simpa [Instruction.targets, if_pos hb, if_neg hs, Operand.target?, Chunk.targets] using hdis
    constructor
    · by_cases hshort : chunks[id].opcode.isShortBranch
      · have hk : chunks[id].opcode.operand = .shortBranch := by
          simpa [Opcode.isShortBranch] using hshort
        have hl1 : chunks[id].operand.length = 1 := hcc.length_eq hk (by decide)
        rw [Pool.displacement, hfetch] at hd
        simp only [Pool.isFar, hfetch, Operand.target?, hd, Bytes.reaches_signed hl1,
          Bool.not_true, Bool.and_false]
      · rw [Bool.not_eq_true] at hshort
        simp only [Pool.isFar, hfetch, hshort, Bool.false_and]
    · simp [Instruction.isDangling, hfetch, Operand.target?]

/-- Decoded code only goes to its own instructions. -/
theorem DecodesTo.isClosed (h : DecodesTo scope owner chunks p) (hc : ∀ c ∈ chunks, c.IsComplete) :
    p.IsClosed (List.range p.size) := by
  have hplace : ∀ id ∈ List.range p.size, ∃ c, chunks[id]? = some c := by
    intro id hid
    rw [List.mem_range, h.size_eq] at hid
    exact ⟨_, List.getElem?_eq_getElem hid⟩
  refine ⟨fun id hid => List.mem_range.mp hid, ?_, ?_, ?_, ?_⟩
  · intro id hid
    obtain ⟨c, hchunk⟩ := hplace id hid
    obtain ⟨operand, -, hfetch⟩ := h.becomes hchunk
    rw [hfetch]
    exact (hc c (List.mem_of_getElem? hchunk)).defined
  · exact fun id hid => (h.reaches hc (List.mem_range.mp hid)).2
  · intro id hid
    obtain ⟨c, hchunk⟩ := hplace id hid
    obtain ⟨operand, hb, hfetch⟩ := h.becomes hchunk
    rw [hfetch]
    exact (hb.size_eq (hc c (List.mem_of_getElem? hchunk)) _ _).1
  · intro id hid target ht
    obtain ⟨c, hchunk⟩ := hplace id hid
    exact List.mem_range.mpr ((h.lists hc).targets_lt id c hchunk target ht)

/-- Decoded code is settled. -/
theorem DecodesTo.isSettled (h : DecodesTo scope owner chunks p)
    (hc : ∀ c ∈ chunks, c.IsComplete) : p.IsSettled (List.range p.size) :=
  ⟨(h.lists hc).isLaidOut, fun _ hid => (h.reaches hc (List.mem_range.mp hid)).1⟩

/-! ### Clauses over decoded code -/

/-- The boundaries of decoded code are the starts of its chunks and its end. -/
theorem Lists.boundaries (h : Lists chunks p) (hne : p.size ≠ 0) :
    p.boundaries code =
      ((Chunk.starts chunks).map fun start : Nat => (start : Int)) ++ [(code.length : Int)] := by
  rw [Pool.boundaries, if_neg hne, h.offsets]

/-- The boundaries of decoded code are those of its instructions. -/
theorem Lists.formerBoundaries (h : Lists chunks p) (hc : Parses code chunks) (hne : p.size ≠ 0) :
    p.formerBoundaries (List.range p.size) = p.boundaries code := by
  have hsome : List.range p.size ≠ [] := by simpa using hne
  rw [h.isLaidOut.formerBoundaries_eq hsome, Pool.boundaries, if_neg hne, h.codeSize hc]

/-- The clauses kept over decoded code are those whose boundaries are boundaries of the code. -/
theorem Lists.filterMap_carry? (h : Lists chunks p) (hc : Parses code chunks)
    {clauses : List Clause} (hn : ∀ c ∈ clauses, ∀ field ∈ c.fields, 0 ≤ field) :
    clauses.filterMap (Clause.carry? (p.moved? p (List.range p.size))) =
      clauses.filter fun c => c.boundaries.all (· ∈ p.boundaries code) := by
  refine Clause.filterMap_carry?_eq_filter fun c hm offset ho => ?_
  by_cases hz : p.size = 0
  · have hpos := Clause.boundaries_nonneg (hn c hm) offset ho
    simp [Pool.moved?, Pool.boundaries, FormerPlaces.carry?, FormerPlaces.ofOrder, hz]
    omega
  · rw [h.isLaidOut.moved?_self (by simpa using hz), h.formerBoundaries hc hz]

/-- Laying decoded code out changes nothing, and keeps the clauses that its boundaries bound. -/
theorem DecodesTo.layOut (h : DecodesTo scope owner chunks p) (hc : Parses code chunks)
    {clauses : List Clause} (hn : ∀ c ∈ clauses, ∀ field ∈ c.fields, 0 ≤ field) :
    ∃ layout lines, layOut (List.range p.size) clauses p = ⟨.ok layout, p, lines⟩ ∧
      layout.codeSize = code.length ∧
      layout.clauses = clauses.filter fun c => c.boundaries.all (· ∈ p.boundaries code) := by
  have hlists := h.lists hc.complete
  obtain ⟨layout, lines, hout, hsize, hkept⟩ :=
    (h.isSettled hc.complete).layOut (h.isClosed hc.complete) List.nodup_range clauses
  rw [hlists.codeSize hc] at hsize
  rw [hlists.filterMap_carry? hc hn] at hkept
  exact ⟨layout, lines, hout, hsize, hkept⟩

/-- Code without signalling numbers is written back as it was. -/
theorem DecodesTo.encodeAll_eq (h : DecodesTo scope owner chunks p) (hf : scope.IsFaithful)
    (hc : Parses code chunks) (hq : ¬ LoadsSignalling code) :
    p.encodeAll (List.range p.size) = .ok code := by
  rw [h.encodeAll hf hc.complete]
  have hsame : chunks.map Chunk.quieted = chunks := by
    rw [List.map_congr_left (g := id), List.map_id]
    intro c hm
    exact (Chunk.quieted_eq_self_iff (hc.complete c hm)).mpr fun hs => hq ⟨chunks, hc, c, hm, hs⟩
  rw [hsame, hc.covers]

end decoded

/-! ### Decoding and compiling again -/

/-- Code that was decoded is compiled to itself. Laying it out changes nothing and keeps exactly the
clauses whose boundaries are boundaries of the code. Its instructions are written as the code, which
stands in a compiled body behind a tiny header, with nothing else, or behind a fat one. -/
theorem decode_layOut_serialize {scope : Scope} {owner : String} {code : Bytes} {p : Pool}
    (hscope : scope.IsFaithful) (hdecode : decode scope owner code = .ok p)
    (hquiet : ¬ LoadsSignalling code) {clauses : List Clause}
    (hclauses : ∀ c ∈ clauses, ∀ field ∈ c.fields, 0 ≤ field) (header : BodyHeader) :
    p.encodeAll (List.range p.size) = .ok code ∧
      ∃ layout lines, layOut (List.range p.size) clauses p = ⟨.ok layout, p, lines⟩ ∧
        layout.codeSize = code.length ∧
        layout.clauses = clauses.filter (fun c => c.boundaries.all (· ∈ p.boundaries code)) ∧
        ∀ body, serialize p (List.range p.size) header layout = .ok body →
          ∃ head tail, body = head ++ code ++ tail ∧
            (head.length = 1 ∧ tail = [] ∨ head.length = 12) := by
  obtain ⟨chunks, hparses, hp⟩ := decode_eq_ok.mp hdecode
  have hcode := hp.encodeAll_eq hscope hparses hquiet
  obtain ⟨layout, lines, hout, hsize, hkept⟩ := hp.layOut hparses hclauses
  refine ⟨hcode, layout, lines, hout, hsize, hkept, ?_⟩
  intro body hbody
  obtain ⟨written, hwritten, parts, -⟩ := serialized_of_ok hbody
  rw [hcode, Except.ok.injEq] at hwritten
  subst hwritten
  exact ⟨parts.head, parts.tail, parts.body_eq, parts.length_head⟩

/-- A branch back over a number that is loaded and dropped, under a clause over all of the code and
one that ends within an instruction. -/
theorem decode_layOut_serialize_of_loop :
    let scope : Scope := ⟨fun _ => none, fun _ => none⟩
    let code : Bytes := [0x22, 0x00, 0x00, 0x80, 0x3F, 0x26, 0x2B, 0xF8]
    let clauses : List Clause := [⟨2, 0, 6, 6, 2, 0⟩, ⟨0, 0, 3, 6, 2, 0⟩]
    let p : Pool :=
      #[⟨⟨0x22, "ldc.r4", .shortReal, some 0, some 1, .next⟩, .real 0x3FF0000000000000, 0, 0⟩,
      ⟨⟨0x26, "pop", .nothing, some 1, some 0, .next⟩, .nothing, 5, 1⟩,
      ⟨⟨0x2B, "br.s", .shortBranch, some 0, some 0, .branch⟩, .target 0, 6, 2⟩]
    decode scope "" code = .ok p ∧ ¬ LoadsSignalling code ∧
      p.encodeAll (List.range p.size) = .ok code ∧
      ∃ layout lines, layOut (List.range p.size) clauses p = ⟨.ok layout, p, lines⟩ ∧
        layout.codeSize = code.length ∧
        layout.clauses = clauses.filter (fun c => c.boundaries.all (· ∈ p.boundaries code)) ∧
        ∀ body, serialize p (List.range p.size) ⟨0, true⟩ layout = .ok body →
          ∃ head tail, body = head ++ code ++ tail ∧
            (head.length = 1 ∧ tail = [] ∨ head.length = 12) := by
  intro scope code clauses p
  have hdecode : decode scope "" code = .ok p := Sequence.toOption_eq_some.mp (by decide +kernel)
  have hquiet : ¬ LoadsSignalling code := by
    rintro ⟨chunks, hparses, c, hm, hs⟩
    have hknown : Parses code
        [⟨⟨0x22, "ldc.r4", .shortReal, some 0, some 1, .next⟩, [0x00, 0x00, 0x80, 0x3F]⟩,
        ⟨⟨0x26, "pop", .nothing, some 1, some 0, .next⟩, []⟩,
        ⟨⟨0x2B, "br.s", .shortBranch, some 0, some 0, .branch⟩, [0xF8]⟩] := by
      refine ⟨?_, by decide⟩
      simp only [List.forall_mem_cons]
      exact ⟨⟨by decide, by decide⟩, ⟨by decide, by decide⟩, ⟨by decide, by decide⟩, by simp⟩
    rw [hparses.unique hknown] at hm
    simp only [List.mem_cons, List.not_mem_nil, or_false] at hm
    rcases hm with rfl | rfl | rfl <;> revert hs <;> unfold Chunk.IsSignalling <;> decide
  exact ⟨hdecode, hquiet,
    decode_layOut_serialize (by rintro _ _ ⟨⟩) hdecode hquiet (by decide) ⟨0, true⟩⟩

/-- The end of no code bounds no clause: where there is no instruction, a clause at offset 0 is
dropped though the code ends there. -/
theorem layOut_drops_clause_of_no_code :
    ¬ ∀ (scope : Scope) (owner : String) (code : Bytes) (p : Pool) (clauses : List Clause),
      scope.IsFaithful → decode scope owner code = .ok p → ¬ LoadsSignalling code →
      (∀ c ∈ clauses, ∀ field ∈ c.fields, 0 ≤ field) →
      ∃ layout lines, layOut (List.range p.size) clauses p = ⟨.ok layout, p, lines⟩ ∧
        layout.clauses = clauses.filter (fun c => c.boundaries.all fun offset =>
          offset ∈ (List.range p.size).map (fun id => (p.fetch id).offset) ++
            [(code.length : Int)]) := by
  intro h
  have hquiet : ¬ LoadsSignalling [] := by
    rintro ⟨chunks, hparses, c, hm, _⟩
    have hnone : Parses [] [] := ⟨by simp, rfl⟩
    rw [hparses.unique hnone] at hm
    simp at hm
  obtain ⟨layout, lines, hout, hkept⟩ := h ⟨fun _ => none, fun _ => none⟩ "" [] #[]
    [⟨0, 0, 0, 0, 0, 0⟩] (by rintro _ _ ⟨⟩) (Sequence.toOption_eq_some.mp (by decide +kernel)) hquiet
    (by decide)
  have hdropped : layOut (List.range 0) [⟨0, 0, 0, 0, 0, 0⟩] #[] =
      ⟨.ok ⟨0, [], [⟨0, 0, 0, 0, 0, 0⟩]⟩, #[], [Clause.droppedLine ⟨0, 0, 0, 0, 0, 0⟩]⟩ := rfl
  rw [show (#[] : Pool).size = 0 from rfl, hdropped] at hout
  cases hout
  revert hkept
  decide

end CilRestore
