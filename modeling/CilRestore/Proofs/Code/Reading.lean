import CilRestore.Proofs.Code.Grammar

/-!
# Reading chunks

What the decoder does with one chunk and with a row of them, said of chunks. Each reader has a pair
of statements: what it accepts is a chunk in front of the rest, and a chunk in front of any rest is
accepted; and all its faults name the offset at which the chunk would start.
-/

namespace CilRestore

/-- The offsets that an operand names. -/
def RawOperand.targets : RawOperand → List Int
  | ready _ => []
  | offset target => [target]
  | offsets targets => targets

/-- What the decoder makes of the operand of a chunk that starts at an offset. -/
def Chunk.Reads (scope : Scope) (owner : String) (start : Nat) (c : Chunk)
    (operand : RawOperand) : Prop :=
  if c.opcode.isSwitch then operand = .offsets (c.targets start)
  else Decode.operand scope owner start (start + c.size) c.opcode c.operand = .ok operand

/-- What the decoder makes of a row of chunks from an offset on. -/
inductive ReadsFrom (scope : Scope) (owner : String) :
    Nat → List Chunk → List RawInstruction → Prop where
  /-- No chunks are no instructions. -/
  | nil (start : Nat) : ReadsFrom scope owner start [] []
  /-- A chunk is an instruction, and the next one starts where it ends. -/
  | cons {start : Nat} {c : Chunk} {operand : RawOperand} {chunks : List Chunk}
      {raws : List RawInstruction} (head : c.Reads scope owner start operand)
      (tail : ReadsFrom scope owner (start + c.size) chunks raws) :
      ReadsFrom scope owner start (c :: chunks) (⟨start, c.opcode, operand⟩ :: raws)

namespace Decode

variable {scope : Scope} {owner : String}

theorem splitExactly?_append (a b : Bytes) : splitExactly? a.length (a ++ b) = some (a, b) := by
  simp [splitExactly?]

/-- What is split off some bytes stood in front of the rest. -/
theorem eq_append_of_splitExactly? {count : Nat} {bs a b : Bytes}
    (h : splitExactly? count bs = some (a, b)) : a.length = count ∧ bs = a ++ b := by
  unfold splitExactly? at h
  simp only at h
  split at h
  · rename_i hl
    simp only [Option.some.injEq, Prod.mk.injEq] at h
    obtain ⟨rfl, rfl⟩ := h
    exact ⟨hl, (List.take_append_drop count bs).symm⟩
  · simp at h

/-! ### Opcodes -/

/-- An opcode in front of anything is read. -/
theorem opcode_append (start : Nat) {op : Opcode} (h : op ∈ Opcode.all) (rest : Bytes) :
    opcode start (op.bytes ++ rest) = .ok (op, rest) := by
  have hv : Opcode.ofValue op.value = .ok op := by
    rw [Opcode.ofValue, Opcode.ofValue?_value op h]
  rcases Opcode.bytes_of_mem h with ⟨hl, hb⟩ | ⟨he, hb⟩
  · have hn : UInt8.ofNat op.value ≠ Opcode.extension := by
      intro hc
      have := congrArg UInt8.toNat hc
      simp only [UInt8.toNat_ofNat', Opcode.extension, UInt8.reduceToNat] at this
      omega
    have hm : (UInt8.ofNat op.value).toNat = op.value := by
      rw [UInt8.toNat_ofNat']
      omega
    rw [hb]
    simp only [opcode, opcodeValue, List.cons_append, List.nil_append, if_neg hn, hm, hv, bind,
      Except.bind]
    rfl
  · rw [hb]
    simp only [opcode, opcodeValue, List.cons_append, List.nil_append, if_true, ← he, hv, bind,
      Except.bind]
    rfl

/-- What reads as a value is the opcode of that value in front of the rest. -/
theorem opcodeValue_sound {start : Nat} {code rest : Bytes} {value : Nat} {op : Opcode}
    (h : opcodeValue start code = .ok (value, rest)) (hm : op ∈ Opcode.all)
    (hv : op.value = value) : code = op.bytes ++ rest := by
  have hx : Opcode.extension.toNat = 0xFE := rfl
  cases code with
  | nil => simp [opcodeValue, undecodable] at h
  | cons first code =>
    by_cases hf : first = Opcode.extension
    · cases code with
      | nil => simp [opcodeValue, undecodable, hf] at h
      | cons second code =>
        simp only [opcodeValue, if_pos hf, Except.ok.injEq, Prod.mk.injEq] at h
        obtain ⟨hval, rfl⟩ := h
        rcases Opcode.bytes_of_mem hm with ⟨hl, _⟩ | ⟨he, hb⟩
        · omega
        · have hs : (UInt8.ofNat op.value).toNat = second.toNat := by omega
          rw [hb, UInt8.toNat_inj.mp hs, hf]
          rfl
    · simp only [opcodeValue, if_neg hf, Except.ok.injEq, Prod.mk.injEq] at h
      obtain ⟨hval, rfl⟩ := h
      have hlt := first.toNat_lt
      rcases Opcode.bytes_of_mem hm with ⟨_, hb⟩ | ⟨he, _⟩
      · rw [hb, hv, ← hval, UInt8.ofNat_toNat]
        rfl
      · omega

/-- What is read as an opcode is one. -/
theorem opcode_sound {start : Nat} {code rest : Bytes} {op : Opcode}
    (h : opcode start code = .ok (op, rest)) : op ∈ Opcode.all ∧ code = op.bytes ++ rest := by
  unfold opcode at h
  cases hv : opcodeValue start code with
  | error e => simp [hv, bind, Except.bind] at h
  | ok found =>
    obtain ⟨value, after⟩ := found
    simp only [hv, bind, Except.bind, Opcode.ofValue] at h
    cases ho : Opcode.ofValue? value with
    | none => simp [ho, undecodable] at h
    | some found =>
      simp only [ho, pure, Except.pure, Except.ok.injEq, Prod.mk.injEq] at h
      obtain ⟨rfl, rfl⟩ := h
      obtain ⟨hm, hval⟩ := Opcode.ofValue?_eq_some_iff.mp ho
      exact ⟨hm, opcodeValue_sound hv hm (by omega)⟩

/-- What cannot be read as an opcode is reported where it starts. -/
theorem opcode_fault {start : Nat} {code : Bytes} {e : Fault}
    (h : opcode start code = .error e) : ∃ reason, e = .undecodable start reason := by
  unfold opcode at h
  cases hv : opcodeValue start code with
  | error fault =>
    simp only [hv, bind, Except.bind, Except.error.injEq] at h
    subst h
    unfold opcodeValue at hv
    split at hv
    · simp only [undecodable, Except.error.injEq] at hv
      exact ⟨_, hv.symm⟩
    · split at hv
      · split at hv
        · simp only [undecodable, Except.error.injEq] at hv
          exact ⟨_, hv.symm⟩
        · simp at hv
      · simp at hv
  | ok found =>
    simp only [hv, bind, Except.bind] at h
    split at h
    · simp [pure, Except.pure] at h
    · simp only [undecodable, Except.error.injEq] at h
      exact ⟨_, h.symm⟩

/-! ### Tokens and other operands -/

/-- A token becomes an operand when it names something of its kind. -/
theorem token_ok_iff (owner : String) (start : Nat) {kind : OperandKind} {value : Nat} :
    (∃ operand, token scope owner start kind value = .ok operand) ↔ scope.Names kind value := by
  have ha : (kind.tables.any fun table => decide ((table : Int) = (Token.ofValue value).table)) =
      true ↔ ∃ table ∈ kind.tables, (table : Int) = (Token.ofValue value).table := by
    simp
  unfold token Scope.Names undecodable
  rw [← ha]
  simp only
  split
  · rename_i hn
    simp [hn]
  · rename_i hn
    simp only [Bool.not_eq_true, Bool.not_eq_false] at hn
    simp only [hn, true_and]
    split
    · cases scope.userString (Token.ofValue value).row <;> simp
    · cases scope.row (Token.ofValue value) <;> simp

/-- Another one is the fault of its instruction. -/
theorem token_fault {start : Nat} {kind : OperandKind} {value : Nat} {e : Fault}
    (h : token scope owner start kind value = .error e) :
    ∃ reason, e = .undecodable start reason := by
  unfold token undecodable at h
  simp only at h
  split at h
  · simp only [Except.error.injEq] at h
    exact ⟨_, h.symm⟩
  · split at h <;> split at h
    · simp at h
    · simp only [Except.error.injEq] at h
      exact ⟨_, h.symm⟩
    · simp at h
    · simp only [Except.error.injEq] at h
      exact ⟨_, h.symm⟩

/-- An operand reads unless it is a token that names nothing. -/
theorem operand_ok_iff {start stop : Nat} {op : Opcode} {raw : Bytes} :
    (∃ found, operand scope owner start stop op raw = .ok found) ↔
      (op.operand.isToken → scope.Names op.operand (Bytes.number raw)) := by
  have ht : ∀ kind, (∃ found, RawOperand.ready <$> token scope owner start kind
      (Bytes.number raw) = .ok found) ↔ scope.Names kind (Bytes.number raw) := by
    intro kind
    rw [← token_ok_iff owner start]
    cases token scope owner start kind (Bytes.number raw) <;> simp [Functor.map, Except.map]
  unfold operand
  cases hk : op.operand <;> simp [OperandKind.isToken, ht]

/-- So is every operand that cannot be read. -/
theorem operand_fault {start stop : Nat} {op : Opcode} {raw : Bytes} {e : Fault}
    (h : operand scope owner start stop op raw = .error e) :
    ∃ reason, e = .undecodable start reason := by
  have ht : ∀ kind, RawOperand.ready <$> token scope owner start kind (Bytes.number raw) =
      .error e → ∃ reason, e = .undecodable start reason := by
    intro kind hm
    cases hv : token scope owner start kind (Bytes.number raw) with
    | ok operand => simp [hv, Functor.map, Except.map] at hm
    | error fault =>
      simp only [hv, Functor.map, Except.map, Except.error.injEq] at hm
      exact token_fault (hm ▸ hv)
  unfold operand at h
  cases hk : op.operand <;> simp only [hk] at h <;> first | exact ht _ h | simp at h

/-- Only branches and switches have targets. -/
theorem targets_of_operand {start stop : Nat} {op : Opcode} {raw : Bytes} {found : RawOperand}
    (h : operand scope owner start stop op raw = .ok found) :
    found.targets = if op.isBranch then [(stop : Int) + Bytes.signed raw] else [] := by
  have ht : ∀ kind, RawOperand.ready <$> token scope owner start kind (Bytes.number raw) =
      .ok found → found.targets = [] := by
    intro kind hm
    cases hv : token scope owner start kind (Bytes.number raw) with
    | error fault => simp [hv, Functor.map, Except.map] at hm
    | ok operand =>
      simp only [hv, Functor.map, Except.map, Except.ok.injEq] at hm
      rw [← hm, RawOperand.targets]
  unfold operand at h
  unfold Opcode.isBranch
  cases hk : op.operand <;> simp only [hk] at h <;>
    first
      | exact ht _ h
      | (simp only [Except.ok.injEq] at h
         subst h
         rfl)

end Decode

namespace Chunk

variable {scope : Scope} {owner : String}

/-- A chunk reads unless its token names nothing. -/
theorem reads_iff {start : Nat} {c : Chunk} :
    (∃ operand, c.Reads scope owner start operand) ↔ c.Resolves scope := by
  unfold Reads Resolves
  by_cases hs : c.opcode.isSwitch
  · have hk : c.opcode.operand = .switch := by simpa [Opcode.isSwitch] using hs
    simp [hs, hk, OperandKind.isToken]
  · simp only [if_neg hs]
    exact Decode.operand_ok_iff

/-- A chunk is read as one operand only. -/
theorem Reads.unique {start : Nat} {c : Chunk} {operand other : RawOperand}
    (h : c.Reads scope owner start operand) (h' : c.Reads scope owner start other) :
    operand = other := by
  unfold Reads at h h'
  split at h
  · rw [if_pos ‹_›] at h'
    exact h.trans h'.symm
  · rw [if_neg ‹_›, h, Except.ok.injEq] at h'
    exact h'

/-- A switch reads as its targets. -/
theorem Reads.of_isSwitch {start : Nat} {c : Chunk} {operand : RawOperand}
    (h : c.Reads scope owner start operand) (hs : c.opcode.isSwitch) :
    operand = .offsets (c.targets start) := by
  rwa [Reads, if_pos hs] at h

/-- A branch reads as its target. -/
theorem Reads.of_isBranch {start : Nat} {c : Chunk} {operand : RawOperand}
    (h : c.Reads scope owner start operand) (hb : c.opcode.isBranch) :
    operand = .offset (((start + c.size : Nat) : Int) + Bytes.signed c.operand) := by
  have hk : c.opcode.operand = .shortBranch ∨ c.opcode.operand = .branch := by
    simpa [Opcode.isBranch] using hb
  have hs : ¬ c.opcode.isSwitch := by
    rcases hk with hk | hk <;> simp [Opcode.isSwitch, hk]
  rw [Reads, if_neg hs, Decode.operand] at h
  rcases hk with hk | hk <;> simp only [hk, Except.ok.injEq] at h <;> exact h.symm

/-- Any other chunk reads as an operand without targets. -/
theorem Reads.of_plain {start : Nat} {c : Chunk} {operand : RawOperand}
    (h : c.Reads scope owner start operand) (hs : ¬ c.opcode.isSwitch)
    (hb : ¬ c.opcode.isBranch) : ∃ ready, operand = .ready ready := by
  have ht : ∀ kind, RawOperand.ready <$> Decode.token scope owner start kind
      (Bytes.number c.operand) = .ok operand → ∃ ready, operand = .ready ready := by
    intro kind hm
    cases hv : Decode.token scope owner start kind (Bytes.number c.operand) with
    | error e => simp [hv, Functor.map, Except.map] at hm
    | ok found =>
      simp only [hv, Functor.map, Except.map, Except.ok.injEq] at hm
      exact ⟨found, hm.symm⟩
  rw [Reads, if_neg hs, Decode.operand] at h
  simp only [Opcode.isSwitch, Opcode.isBranch, Bool.or_eq_true, beq_iff_eq, not_or] at hs hb
  cases hk : c.opcode.operand <;> simp only [hk] at h hs hb <;>
    first
      | exact ht _ h
      | exact ⟨_, (Except.ok.inj h).symm⟩
      | exact absurd trivial hs
      | exact absurd trivial hb.1
      | exact absurd trivial hb.2

/-- The targets that are read are those of the chunk. -/
theorem Reads.targets {start : Nat} {c : Chunk} {operand : RawOperand}
    (h : c.Reads scope owner start operand) : operand.targets = c.targets start := by
  unfold Reads at h
  split at h
  · rw [h, RawOperand.targets]
  · rename_i hs
    rw [Decode.targets_of_operand h, Chunk.targets, if_neg hs]

end Chunk

namespace Decode

variable {scope : Scope} {owner : String}

@[simp] theorem length_displacements (count : Nat) (bs : Bytes) :
    (displacements count bs).length = count := by
  induction count generalizing bs with
  | zero => rfl
  | succ count ih => simp [displacements, ih]

/-! ### One chunk -/

/-- A chunk that reads is read, whatever follows it. -/
theorem instruction_complete {start : Nat} {c : Chunk} {operand : RawOperand}
    (hc : c.IsComplete) (hr : c.Reads scope owner start operand) (rest : Bytes) :
    instruction scope owner start (c.bytes ++ rest) =
      .ok (⟨start, c.opcode, operand⟩, rest, start + c.size) := by
  have hop := opcode_append start hc.defined (c.operand ++ rest)
  have hl := hc.operand_length
  unfold Chunk.Reads at hr
  rw [Chunk.bytes, List.append_assoc]
  by_cases hs : c.opcode.isSwitch
  · rw [if_pos hs] at hl hr
    have hh : (c.operand.take 4).length = 4 := by
      rw [List.length_take]
      omega
    have he : (c.operand.drop 4).length = 4 * c.entryCount := by
      rw [List.length_drop]
      omega
    have hsplit : splitExactly? 4 (c.operand ++ rest) =
        some (c.operand.take 4, c.operand.drop 4 ++ rest) := by
      have h := splitExactly?_append (c.operand.take 4) (c.operand.drop 4 ++ rest)
      rwa [hh, ← List.append_assoc, List.take_append_drop] at h
    have hsplit' : splitExactly? (4 * Bytes.number (c.operand.take 4)) (c.operand.drop 4 ++ rest) =
        some (c.operand.drop 4, rest) := by
      have h := splitExactly?_append (c.operand.drop 4) rest
      rwa [he] at h
    have hz : start + c.opcode.size + 4 + 4 * Bytes.number (c.operand.take 4) =
        start + c.size := by
      rw [Chunk.size, hl, Chunk.entryCount]
      omega
    simp only [instruction, hop, bind, Except.bind, hs, if_true, table, hsplit, hsplit', hz,
      pure, Except.pure, hr, Chunk.targets, Chunk.entryCount]
  · rw [if_neg hs] at hl hr
    have hsplit : splitExactly? c.opcode.operand.size (c.operand ++ rest) =
        some (c.operand, rest) := hl ▸ splitExactly?_append c.operand rest
    have hz : start + c.opcode.size + c.opcode.operand.size = start + c.size := by
      rw [Chunk.size, hl, Nat.add_assoc]
    simp only [instruction, hop, bind, Except.bind, if_neg hs, hsplit, hz, hr, pure, Except.pure]

/-- What is read is a chunk in front of the rest. -/
theorem instruction_sound {start stop : Nat} {code rest : Bytes} {raw : RawInstruction}
    (h : instruction scope owner start code = .ok (raw, rest, stop)) :
    ∃ c : Chunk, c.IsComplete ∧ code = c.bytes ++ rest ∧ stop = start + c.size ∧
      ∃ operand, raw = ⟨start, c.opcode, operand⟩ ∧ c.Reads scope owner start operand := by
  unfold instruction at h
  cases hop : opcode start code with
  | error e => simp [hop, bind, Except.bind] at h
  | ok found =>
    obtain ⟨op, after⟩ := found
    obtain ⟨hm, rfl⟩ := opcode_sound hop
    simp only [hop, bind, Except.bind] at h
    by_cases hs : op.isSwitch
    · simp only [hs, if_true, table] at h
      cases hh : splitExactly? 4 after with
      | none => simp [hh, undecodable] at h
      | some found =>
        obtain ⟨head, tail⟩ := found
        obtain ⟨hhl, rfl⟩ := eq_append_of_splitExactly? hh
        cases ht : splitExactly? (4 * Bytes.number head) tail with
        | none => simp [hh, ht, undecodable] at h
        | some found =>
          obtain ⟨entries, behind⟩ := found
          obtain ⟨hel, rfl⟩ := eq_append_of_splitExactly? ht
          have hcount : (⟨op, head ++ entries⟩ : Chunk).entryCount = Bytes.number head := by
            rw [Chunk.entryCount, List.take_left' hhl]
          have hsize : start + op.size + 4 + 4 * Bytes.number head =
              start + (⟨op, head ++ entries⟩ : Chunk).size := by
            simp only [Chunk.size, List.length_append]
            omega
          simp only [hh, ht, pure, Except.pure, Except.ok.injEq, Prod.mk.injEq] at h
          obtain ⟨rfl, rfl, rfl⟩ := h
          refine ⟨⟨op, head ++ entries⟩, ⟨hm, ?_⟩, ?_, hsize, _, rfl, ?_⟩
          · rw [if_pos hs, hcount, List.length_append, hhl, hel]
          · simp [Chunk.bytes]
          · rw [Chunk.Reads, if_pos hs, Chunk.targets, if_pos hs, hcount, List.drop_left' hhl,
              hsize]
    · simp only [if_neg hs] at h
      cases hh : splitExactly? op.operand.size after with
      | none => simp [hh, undecodable] at h
      | some found =>
        obtain ⟨bytes, behind⟩ := found
        obtain ⟨hbl, rfl⟩ := eq_append_of_splitExactly? hh
        have hsize : start + op.size + op.operand.size = start + (⟨op, bytes⟩ : Chunk).size := by
          rw [Chunk.size, hbl, Nat.add_assoc]
        simp only [hh] at h
        cases ho : operand scope owner start (start + op.size + op.operand.size) op bytes with
        | error e => simp [ho] at h
        | ok found =>
          simp only [ho, pure, Except.pure, Except.ok.injEq, Prod.mk.injEq] at h
          obtain ⟨rfl, rfl, rfl⟩ := h
          refine ⟨⟨op, bytes⟩, ⟨hm, by rw [if_neg hs, hbl]⟩, ?_, hsize, found, rfl, ?_⟩
          · simp [Chunk.bytes]
          · rwa [Chunk.Reads, if_neg hs, ← hsize]

/-- A chunk that cannot be read is named by the offset at which it starts. -/
theorem instruction_fault {start : Nat} {code : Bytes} {e : Fault}
    (h : instruction scope owner start code = .error e) :
    ∃ reason, e = .undecodable start reason := by
  unfold instruction at h
  cases hop : opcode start code with
  | error fault =>
    simp only [hop, bind, Except.bind, Except.error.injEq] at h
    exact opcode_fault (h ▸ hop)
  | ok found =>
    obtain ⟨op, after⟩ := found
    simp only [hop, bind, Except.bind] at h
    by_cases hs : op.isSwitch
    · simp only [hs, if_true, table, undecodable] at h
      cases hh : splitExactly? 4 after with
      | none =>
        simp only [hh, Except.error.injEq] at h
        exact ⟨_, h.symm⟩
      | some found =>
        obtain ⟨head, tail⟩ := found
        cases ht : splitExactly? (4 * Bytes.number head) tail with
        | none =>
          simp only [hh, ht, Except.error.injEq] at h
          exact ⟨_, h.symm⟩
        | some found => simp [hh, ht, pure, Except.pure] at h
    · simp only [if_neg hs, undecodable] at h
      cases hh : splitExactly? op.operand.size after with
      | none =>
        simp only [hh, Except.error.injEq] at h
        exact ⟨_, h.symm⟩
      | some found =>
        obtain ⟨bytes, behind⟩ := found
        simp only [hh] at h
        cases ho : operand scope owner start (start + op.size + op.operand.size) op bytes with
        | error fault =>
          simp only [ho, Except.error.injEq] at h
          exact operand_fault (h ▸ ho)
        | ok found => simp [ho, pure, Except.pure] at h

/-! ### A row of chunks -/

/-- At the end of the code the instructions that were found are all. -/
theorem split_nil (start : Nat) (done : List RawInstruction) :
    split scope owner start [] done = .ok done.reverse := by
  rw [split, if_pos List.isEmpty_nil]

/-- Splitting takes the first instruction and goes on with what follows it. -/
theorem split_eq {start : Nat} {code : Bytes} (hcode : code ≠ []) (done : List RawInstruction) :
    split scope owner start code done = (match instruction scope owner start code with
      | .error e => .error e
      | .ok (raw, rest, stop) => split scope owner stop rest (raw :: done)) := by
  rw [split, if_neg (by simpa using hcode)]
  split <;> rename_i hinstruction <;> rw [hinstruction]

/-- Chunks that read are split off, whatever was split off before. -/
theorem split_complete {start : Nat} {chunks : List Chunk} {raws : List RawInstruction}
    (hc : ∀ c ∈ chunks, c.IsComplete) (hr : ReadsFrom scope owner start chunks raws)
    (done : List RawInstruction) :
    split scope owner start (Chunk.join chunks) done = .ok (done.reverse ++ raws) := by
  induction hr generalizing done with
  | nil start => simp [split_nil]
  | @cons start c operand chunks raws head tail ih =>
    have hpos := c.size_pos
    have hi := instruction_complete (hc c (by simp)) head (Chunk.join chunks)
    have hne : c.bytes ++ Chunk.join chunks ≠ [] := by
      intro he
      have := congrArg List.length he
      rw [List.length_append, Chunk.length_bytes, List.length_nil] at this
      omega
    rw [Chunk.join_cons, split_eq hne, hi]
    simp only
    rw [ih fun x hx => hc x (by simp [hx])]
    simp

/-- What is split off are chunks that read: by induction on the bytes of the code. -/
theorem split_sound {start : Nat} {code : Bytes} {done raws : List RawInstruction}
    (h : split scope owner start code done = .ok raws) :
    ∃ chunks found, (∀ c ∈ chunks, c.IsComplete) ∧ Chunk.join chunks = code ∧
      ReadsFrom scope owner start chunks found ∧ raws = done.reverse ++ found := by
  induction hlength : code.length using Nat.strongRecOn generalizing start code done with
  | ind length ih =>
    by_cases hcode : code = []
    · subst hcode
      rw [split_nil, Except.ok.injEq] at h
      exact ⟨[], [], by simp, rfl, .nil start, by simp [h]⟩
    · rw [split_eq hcode] at h
      cases hi : instruction scope owner start code with
      | error e => simp [hi] at h
      | ok found =>
        obtain ⟨raw, rest, stop⟩ := found
        have hlt := length_lt_of_instruction hi
        obtain ⟨c, hc, rfl, rfl, operand, rfl, hr⟩ := instruction_sound hi
        simp only [hi] at h
        obtain ⟨chunks, raws', hcs, rfl, hrs, hd⟩ := ih _ (hlength ▸ hlt) h rfl
        refine ⟨c :: chunks, _ :: raws', ?_, rfl, .cons hr hrs, by simp [hd]⟩
        intro x hx
        rcases List.mem_cons.mp hx with rfl | hx
        · exact hc
        · exact hcs x hx

/-- Splitting stops at the first place where no chunk begins that reads. -/
theorem split_fault {start : Nat} {code : Bytes} {done : List RawInstruction} {e : Fault}
    (h : split scope owner start code done = .error e) :
    ∃ chunks rest found reason, (∀ c ∈ chunks, c.IsComplete) ∧ code = Chunk.join chunks ++ rest ∧
      ReadsFrom scope owner start chunks found ∧ rest ≠ [] ∧
      (∀ c : Chunk, c.IsComplete → c.Resolves scope → ¬ c.bytes <+: rest) ∧
      e = .undecodable (start + (Chunk.join chunks).length : Nat) reason := by
  induction hlength : code.length using Nat.strongRecOn generalizing start code done with
  | ind length ih =>
    by_cases hcode : code = []
    · simp [hcode, split_nil] at h
    · rw [split_eq hcode] at h
      cases hi : instruction scope owner start code with
      | error fault =>
        simp only [hi, Except.error.injEq] at h
        subst h
        obtain ⟨reason, rfl⟩ := instruction_fault hi
        refine ⟨[], code, [], reason, by simp, rfl, .nil start, hcode, ?_, by simp⟩
        rintro c hc hn ⟨rest, hrest⟩
        obtain ⟨operand, hr⟩ := Chunk.reads_iff.mpr hn
        rw [← hrest, instruction_complete hc hr rest] at hi
        simp at hi
      | ok found =>
        obtain ⟨raw, rest, stop⟩ := found
        have hlt := length_lt_of_instruction hi
        obtain ⟨c, hc, rfl, rfl, operand, rfl, hr⟩ := instruction_sound hi
        simp only [hi] at h
        obtain ⟨chunks, behind, raws, reason, hcs, rfl, hrs, hne, hno, rfl⟩ :=
          ih _ (hlength ▸ hlt) h rfl
        refine ⟨c :: chunks, behind, _ :: raws, reason, ?_, ?_, .cons hr hrs, hne, hno, ?_⟩
        · intro x hx
          rcases List.mem_cons.mp hx with rfl | hx
          · exact hc
          · exact hcs x hx
        · rw [Chunk.join_cons, List.append_assoc]
        · rw [Chunk.join_cons, List.length_append, Chunk.length_bytes, Nat.add_assoc]

end Decode

namespace ReadsFrom

variable {scope : Scope} {owner : String}

theorem length_eq {start : Nat} {chunks : List Chunk} {raws : List RawInstruction}
    (h : ReadsFrom scope owner start chunks raws) : raws.length = chunks.length := by
  induction h with
  | nil => rfl
  | cons head tail ih => simp [ih]

/-- The instruction at a place is what the decoder makes of the chunk there. -/
theorem getElem? {start : Nat} {chunks : List Chunk} {raws : List RawInstruction}
    (h : ReadsFrom scope owner start chunks raws) {place : Nat} {c : Chunk}
    (hc : chunks[place]? = some c) :
    ∃ operand, raws[place]? = some ⟨start + Chunk.startOf chunks place, c.opcode, operand⟩ ∧
      c.Reads scope owner (start + Chunk.startOf chunks place) operand := by
  induction h generalizing place with
  | nil => simp at hc
  | @cons start d operand chunks raws head tail ih =>
    cases place with
    | zero =>
      simp only [List.getElem?_cons_zero, Option.some.injEq] at hc
      subst hc
      exact ⟨operand, by simp, head⟩
    | succ place =>
      obtain ⟨operand, ho, hr⟩ := ih (by simpa using hc)
      rw [Nat.add_assoc, ← Chunk.startOf_cons_succ] at ho hr
      exact ⟨operand, by simpa using ho, hr⟩

/-- Chunks read as soon as their tokens name something. -/
theorem of_resolves {chunks : List Chunk} (h : ∀ c ∈ chunks, c.Resolves scope) (owner : String)
    (start : Nat) : ∃ raws, ReadsFrom scope owner start chunks raws := by
  induction chunks generalizing start with
  | nil => exact ⟨[], .nil start⟩
  | cons c chunks ih =>
    obtain ⟨operand, ho⟩ := Chunk.reads_iff.mpr (h c (by simp))
    obtain ⟨raws, hr⟩ := ih (fun d hd => h d (by simp [hd])) (start + c.size)
    exact ⟨_, .cons ho hr⟩

/-- In chunks that are read every token names something. -/
theorem resolves {start : Nat} {chunks : List Chunk} {raws : List RawInstruction}
    (h : ReadsFrom scope owner start chunks raws) : ∀ c ∈ chunks, c.Resolves scope := by
  induction h with
  | nil => simp
  | cons head tail ih =>
    intro c hc
    rcases List.mem_cons.mp hc with rfl | hc
    · exact Chunk.reads_iff.mp ⟨_, head⟩
    · exact ih c hc

end ReadsFrom

end CilRestore
