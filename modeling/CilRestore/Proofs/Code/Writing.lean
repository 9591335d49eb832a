import CilRestore.Instruction.Encode
import CilRestore.Proofs.Binary.Widening
import CilRestore.Proofs.Code.Acceptance

/-!
# Writing decoded code

Instructions that were decoded are written back as the chunks they were decoded from. The operands
of any kind come back as they were, but for one: a binary32 number goes through binary64, and one
that is no number comes back quiet (`Chunk.quieted`). So code is written back as it was exactly
when it loads no signalling one.
-/

namespace CilRestore

namespace Bytes

/-- A number without a sign is written as the bytes that it was read from. -/
theorem unsigned?_number {width : Nat} {bs : Bytes} (h : bs.length = width) :
    unsigned? width (number bs) = some bs := by
  have hlt := number_lt bs
  rw [h] at hlt
  rw [unsigned?, if_pos ⟨by omega, by exact_mod_cast hlt⟩, Int.toNat_natCast, ← h,
    ofNumber_number]

/-- So is one with a sign. -/
theorem signed?_signed {width : Nat} {bs : Bytes} (h : bs.length = width) :
    signed? width (signed bs) = some bs := by
  have hlt := number_lt bs
  rw [h] at hlt
  have hmod : (signed bs % (256 ^ width : Nat)).toNat = number bs := by
    rw [signed, h]
    split
    · rw [Int.emod_eq_of_lt (by omega) (by exact_mod_cast hlt), Int.toNat_natCast]
    · rw [Int.sub_emod_right, Int.emod_eq_of_lt (by omega) (by exact_mod_cast hlt),
        Int.toNat_natCast]
  have hrange : -((256 ^ width : Nat) : Int) ≤ 2 * signed bs ∧
      2 * signed bs < (256 ^ width : Nat) := by
    rw [signed, h]
    generalize 256 ^ width = unit at hlt
    split <;> omega
  rw [signed?, if_pos hrange, hmod, ← h, ofNumber_number]

/-- The low byte of the signed or unsigned number that a byte spells is the byte. -/
theorem ofNumber_low {bs : Bytes} (h : bs.length = 1) {n : Int}
    (hn : n = number bs ∨ n = signed bs) : ofNumber 1 (n % 256).toNat = bs := by
  have hlt := number_lt bs
  rw [h, Nat.pow_one] at hlt
  have hm : (n % 256).toNat = number bs := by
    rcases hn with rfl | rfl
    · omega
    · rw [signed, h]
      split <;> omega
  rw [hm, ← h, ofNumber_number]

end Bytes

theorem fitting_some (bs : Bytes) : fitting (some bs) = .ok bs := rfl

/-- Below four bytes a number spells a token that spells the number. -/
theorem Token.value_ofValue {n : Nat} (h : n < 2 ^ 32) : (Token.ofValue n).value = n := by
  simp only [Token.ofValue, Token.value]
  omega

/-- What a token stands for has that token. -/
def Scope.IsFaithful (scope : Scope) : Prop :=
  ∀ t row, scope.row t = some row → row.tokenValue = t.value

/-- A scope in which no token stands for anything. -/
def Scope.empty : Scope := ⟨fun _ => none, fun _ => none⟩

namespace Chunk

/-- A chunk loads a signalling binary32 number. -/
def IsSignalling (c : Chunk) : Prop :=
  c.opcode.operand = .shortReal ∧ Binary.IsSignalling (Bytes.number c.operand)

/-- A chunk with the quiet bit set where it loads a binary32 number that is none. -/
def quieted (c : Chunk) : Chunk :=
  if c.opcode.operand = .shortReal then
    { c with operand := Bytes.ofNumber 4 (Binary.quieted (Bytes.number c.operand)) }
  else c

@[simp] theorem quieted_opcode (c : Chunk) : c.quieted.opcode = c.opcode := by
  unfold quieted
  split <;> rfl

theorem quieted_of_ne {c : Chunk} (h : c.opcode.operand ≠ .shortReal) : c.quieted = c := if_neg h

/-- The operand of a complete chunk that is no switch is as long as its kind says. -/
theorem IsComplete.length_eq {c : Chunk} (h : c.IsComplete) {kind : OperandKind}
    (hk : c.opcode.operand = kind) (hs : kind ≠ .switch) : c.operand.length = kind.size := by
  have hl := h.operand_length
  rwa [if_neg (by simpa [Opcode.isSwitch, hk] using hs), hk] at hl

/-- Quieting a number keeps its width. -/
theorem length_quieted_operand {c : Chunk} (h : c.IsComplete) :
    c.quieted.operand.length = c.operand.length := by
  unfold quieted
  split
  · rename_i hk
    rw [h.length_eq hk (by decide)]
    simp [OperandKind.size]
  · rfl

theorem size_quieted {c : Chunk} (h : c.IsComplete) : c.quieted.size = c.size := by
  rw [size, size, quieted_opcode, length_quieted_operand h]

/-- Only a signalling number is changed by quieting. -/
theorem quieted_eq_self_iff {c : Chunk} (h : c.IsComplete) :
    c.quieted = c ↔ ¬ c.IsSignalling := by
  unfold IsSignalling quieted
  by_cases hk : c.opcode.operand = .shortReal
  · have hl : c.operand.length = 4 := h.length_eq hk (by decide)
    have hlt := Bytes.number_lt c.operand
    rw [hl] at hlt
    have hq := Binary.quieted_lt hlt
    simp only [hk, if_true, true_and]
    rw [← Binary.quieted_eq_self_iff]
    constructor
    · intro he
      have hn := congrArg (fun d : Chunk => Bytes.number d.operand) he
      simp only [Bytes.number_ofNumber] at hn
      rwa [Nat.mod_eq_of_lt (by simpa using hq)] at hn
    · intro he
      rw [he, ← hl, Bytes.ofNumber_number]
  · simp [hk]

end Chunk

/-! ### Operands -/

/-- The binary32 bits of a widened number. -/
theorem Operand.singleBits_widened {bits : Nat} (h : bits < 2 ^ 32) :
    (Operand.real (Decode.widenedReal bits)).singleBits = .ok (Binary.quieted bits) := by
  obtain ⟨wide, hwide, hlt, hback⟩ := Binary.narrow_widen h
  have hreal : (Decode.widenedReal bits).toNat = wide := by
    rw [Decode.widenedReal, hwide, Option.getD_some, UInt64.toNat_ofNat', Nat.mod_eq_of_lt hlt]
  simp only [Operand.singleBits, Operand.realBits, hreal, bind, Except.bind, hback, pure,
    Except.pure]

/-- What a token operand becomes has the token that it was. -/
theorem Decode.token_value {scope : Scope} {owner : String} {start value : Nat}
    {kind : OperandKind} {operand : Operand} (hf : scope.IsFaithful) (hv : value < 2 ^ 32)
    (h : Decode.token scope owner start kind value = .ok operand) :
    operand.tokenValue = .ok value := by
  unfold Decode.token Decode.undecodable at h
  simp only at h
  split at h
  · simp at h
  · split at h <;> split at h
    · simp only [Except.ok.injEq] at h
      subst h
      rfl
    · simp at h
    · rename_i row hrow
      simp only [Except.ok.injEq] at h
      subst h
      rw [Operand.tokenValue, Operand.tokenValue?, hf _ _ hrow, Token.value_ofValue hv]
    · simp at h

section writing

variable {scope : Scope} {owner : String} {chunks : List Chunk} {p : Pool}

/-- An operand without targets is written as it was read, but for the quiet bit. -/
theorem Pool.encodeOperand_plain (p : Pool) {start : Nat} {c : Chunk} {operand : Operand}
    {offset index : Int} (hf : scope.IsFaithful) (hc : c.IsComplete)
    (hs : ¬ c.opcode.isSwitch) (hb : ¬ c.opcode.isBranch)
    (h : Decode.operand scope owner start (start + c.size) c.opcode c.operand =
      .ok (.ready operand)) :
    p.encodeOperand ⟨c.opcode, operand, offset, index⟩ = .ok c.quieted.operand := by
  have hlen : ∀ kind, c.opcode.operand = kind → kind ≠ .switch →
      c.operand.length = kind.size := fun kind => hc.length_eq
  have hlt := Bytes.number_lt c.operand
  have htoken : ∀ kind, c.opcode.operand = kind → kind.size = 4 → kind ≠ .switch →
      RawOperand.ready <$> Decode.token scope owner start kind (Bytes.number c.operand) =
        .ok (.ready operand) →
      (operand.tokenValue >>= fun token => fitting (Bytes.unsigned? 4 token)) =
        .ok c.operand := by
    intro kind hk hsize hne hm
    obtain ⟨found, ht, he⟩ := Sequence.map_eq_ok.mp hm
    rw [RawOperand.ready.injEq] at he
    subst he
    have hl : c.operand.length = 4 := by rw [hlen kind hk hne, hsize]
    rw [hl] at hlt
    rw [Decode.token_value hf (hlt.trans_eq (by norm_num)) ht]
    rw [Sequence.ok_bind, Bytes.unsigned?_number hl, fitting_some]
  simp only [Opcode.isSwitch, Opcode.isBranch, Bool.or_eq_true, beq_iff_eq, not_or] at hs hb
  unfold Decode.operand at h
  unfold Pool.encodeOperand
  cases hk : c.opcode.operand with
  | nothing =>
    have hz : c.operand.length = 0 := hlen _ hk (by decide)
    rw [Chunk.quieted_of_ne (by rw [hk]; decide), List.eq_nil_of_length_eq_zero hz]
  | shortVariable | longVariable =>
    simp only [hk, Except.ok.injEq, RawOperand.ready.injEq] at h
    subst h
    have hl := hlen _ hk (by decide)
    rw [Chunk.quieted_of_ne (by rw [hk]; decide)]
    exact Sequence.bind_eq_ok.mpr ⟨_, rfl, congrArg fitting (Bytes.unsigned?_number hl)⟩
  | shortInteger =>
    simp only [hk, Except.ok.injEq, RawOperand.ready.injEq] at h
    subst h
    rw [Chunk.quieted_of_ne (by rw [hk]; decide)]
    refine Sequence.map_eq_ok.mpr ⟨_, rfl, Bytes.ofNumber_low (hlen _ hk (by decide)) ?_⟩
    split
    · exact Or.inr rfl
    · exact Or.inl rfl
  | integer | longInteger =>
    simp only [hk, Except.ok.injEq, RawOperand.ready.injEq] at h
    subst h
    have hl := hlen _ hk (by decide)
    rw [Chunk.quieted_of_ne (by rw [hk]; decide)]
    exact Sequence.bind_eq_ok.mpr ⟨_, rfl, congrArg fitting (Bytes.signed?_signed hl)⟩
  | shortReal =>
    simp only [hk, Except.ok.injEq, RawOperand.ready.injEq] at h
    subst h
    have hl : c.operand.length = 4 := hlen _ hk (by decide)
    rw [hl] at hlt
    rw [Chunk.quieted, if_pos hk]
    exact Sequence.map_eq_ok.mpr
      ⟨_, Operand.singleBits_widened (hlt.trans_eq (by norm_num)), rfl⟩
  | real =>
    simp only [hk, Except.ok.injEq, RawOperand.ready.injEq] at h
    subst h
    have hl : c.operand.length = 8 := hlen _ hk (by decide)
    rw [hl] at hlt
    rw [Chunk.quieted_of_ne (by rw [hk]; decide)]
    refine Sequence.map_eq_ok.mpr ⟨_, rfl, ?_⟩
    rw [UInt64.toNat_ofNat', Nat.mod_eq_of_lt (hlt.trans_eq (by norm_num)), ← hl,
      Bytes.ofNumber_number]
  | shortBranch => exact absurd hk hb.1
  | branch => exact absurd hk hb.2
  | switch => exact absurd hk hs
  | method | field | type | member | signature | text =>
    rw [Chunk.quieted_of_ne (by rw [hk]; decide)]
    exact htoken _ hk rfl (by decide) (by simpa only [hk] using h)

/-- The entries of a table are written back as its bytes. -/
theorem mapM_signed?_displacements {count : Nat} {bs : Bytes} (h : bs.length = 4 * count) :
    ∃ entries, (displacements count bs).mapM (fun d => fitting (Bytes.signed? 4 d)) = .ok entries ∧
      entries.flatten = bs := by
  induction count generalizing bs with
  | zero => exact ⟨[], rfl, (List.eq_nil_of_length_eq_zero h).symm⟩
  | succ count ih =>
    have hd : (bs.drop 4).length = 4 * count := by
      rw [List.length_drop]
      omega
    have ht : (bs.take 4).length = 4 := by
      rw [List.length_take]
      omega
    obtain ⟨entries, hm, hf⟩ := ih hd
    refine ⟨bs.take 4 :: entries, ?_, ?_⟩
    · rw [displacements, List.mapM_cons, Bytes.signed?_signed ht, fitting_some, Sequence.ok_bind,
        hm]
      rfl
    · rw [List.flatten_cons, hf, List.take_append_drop]

/-- How far the targets of an instruction lie from its end, when it lists a chunk. -/
theorem Lists.displacement {place : Nat} {c : Chunk} (h : Lists chunks p)
    (hplace : chunks[place]? = some c) (hsize : (p.fetch place).size = c.size) :
    (p.fetch place).targets.map (p.displacement (p.fetch place)) =
      (c.targets (Chunk.startOf chunks place)).map
        (· - ((Chunk.startOf chunks place + c.size : Nat) : Int)) := by
  rw [← h.targets place c hplace, List.map_map]
  apply List.map_congr_left
  intro id _
  simp only [Pool.displacement, Function.comp_apply, h.offset place c hplace, hsize,
    Int.natCast_add]

/-- An instruction that was decoded is written as its chunk, but for the quiet bit. -/
theorem DecodesTo.encode (h : DecodesTo scope owner chunks p) (hf : scope.IsFaithful)
    (hc : ∀ c ∈ chunks, c.IsComplete) {place : Nat} {c : Chunk} (hplace : chunks[place]? = some c) :
    p.encode (p.fetch place) = .ok c.quieted.bytes := by
  have hcc := hc c (List.mem_of_getElem? hplace)
  have hlen := hcc.operand_length
  obtain ⟨operand, hb, hfetch⟩ := h.becomes hplace
  obtain ⟨_, hsize⟩ := hb.size_eq hcc (Chunk.startOf chunks place : Nat) place
  have hdis := (h.lists hc).displacement hplace (by rw [hfetch, hsize])
  suffices hop : p.encodeOperand (p.fetch place) = .ok c.quieted.operand by
    refine Sequence.map_eq_ok.mpr ⟨_, hop, ?_⟩
    rw [hfetch, Chunk.bytes, Chunk.quieted_opcode]
  rw [hfetch] at hdis ⊢
  cases hb with
  | switch places hs hl =>
    have hk : c.opcode.operand = .switch := by simpa [Opcode.isSwitch] using hs
    have hn := Opcode.not_isBranch_of_isSwitch hs
    rw [if_pos hs] at hlen
    have hcount : (places.length : Int) = Bytes.number (c.operand.take 4) := by
      rw [← hl.length_eq, Chunk.targets, if_pos hs, List.length_map, Decode.length_displacements,
        Chunk.entryCount]
    simp only [Instruction.targets, if_neg hn, if_pos hs, Operand.targets?, Option.getD_some,
      Chunk.targets, List.map_map] at hdis
    rw [show ((· - ((Chunk.startOf chunks place + c.size : Nat) : Int)) ∘
      (((Chunk.startOf chunks place + c.size : Nat) : Int) + ·)) = id from
        funext fun d => add_sub_cancel_left _ d, List.map_id] at hdis
    obtain ⟨entries, hm, hflat⟩ := mapM_signed?_displacements
      (show (c.operand.drop 4).length = 4 * c.entryCount by rw [List.length_drop]; omega)
    rw [← hdis, List.mapM_map] at hm
    rw [Chunk.quieted_of_ne (by rw [hk]; decide), Pool.encodeOperand]
    simp only [hk, Pool.encodeTable, Operand.targets?]
    refine Sequence.bind_eq_ok.mpr ⟨c.operand.take 4, ?_, Sequence.bind_eq_ok.mpr ⟨entries, hm, ?_⟩⟩
    · rw [hcount, Bytes.unsigned?_number (by rw [List.length_take]; omega), fitting_some]
    · rw [hflat, List.take_append_drop]
      rfl
  | branch other hbr ho hl =>
    have hs : ¬ c.opcode.isSwitch := Opcode.not_isSwitch_of_isBranch hbr
    rw [if_neg hs] at hlen
    have hd : p.displacement (Instruction.mk c.opcode (.target other)
        (Chunk.startOf chunks place : Nat) place) other = Bytes.signed c.operand := by
      simpa [Instruction.targets, if_pos hbr, if_neg hs, Operand.target?, Chunk.targets] using hdis
    have hk : c.opcode.operand = .shortBranch ∨ c.opcode.operand = .branch := by
      simpa [Opcode.isBranch] using hbr
    rw [Pool.encodeOperand]
    rcases hk with hk | hk
    · have hl1 : c.operand.length = 1 := by rw [hlen, hk]; rfl
      rw [Chunk.quieted_of_ne (by rw [hk]; decide)]
      simp only [hk, Pool.encodeBranch, Operand.target?, hd]
      rw [Bytes.signed?_signed hl1, fitting_some]
    · have hl4 : c.operand.length = 4 := by rw [hlen, hk]; rfl
      rw [Chunk.quieted_of_ne (by rw [hk]; decide)]
      simp only [hk, Pool.encodeBranch, Operand.target?, hd]
      rw [Bytes.signed?_signed hl4, fitting_some]
  | plain operand hs hb hr => exact p.encodeOperand_plain hf hcc hs hb hr

/-- The instructions of a pool that was decoded are written as its chunks. -/
theorem DecodesTo.encodeAll (h : DecodesTo scope owner chunks p) (hf : scope.IsFaithful)
    (hc : ∀ c ∈ chunks, c.IsComplete) :
    p.encodeAll (List.range p.size) = .ok (Chunk.join (chunks.map Chunk.quieted)) := by
  refine Sequence.map_eq_ok.mpr ⟨chunks.map (·.quieted.bytes), Sequence.mapM_eq_ok.mpr ?_, ?_⟩
  · rw [List.forall₂_iff_get, h.size_eq]
    refine ⟨by simp, ?_⟩
    intro place hr hl
    simp only [List.get_eq_getElem, List.getElem_range, List.getElem_map]
    exact h.encode hf hc (List.getElem?_eq_getElem _)
  · rw [Chunk.join, List.flatMap_map]
    rfl

end writing

end CilRestore
