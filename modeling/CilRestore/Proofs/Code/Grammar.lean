import CilRestore.Instruction.Decode

/-!
# The grammar of code

Code is a row of chunks, each a defined opcode with all the bytes of its operand. What a chunk
names is said here on its own, without the decoder: a token has to be of a table that its operand
allows and to stand for something, and a target has to be an offset at which a chunk starts. No
chunk begins with another one, so code can be cut into chunks in one way at most
(`Parses.unique`).
-/

namespace CilRestore

namespace Opcode

/-- A defined opcode is one byte below the extension byte, or two of which that is the first. -/
theorem value_range : ∀ op ∈ all, op.value < 0xFE ∨ 0xFE00 ≤ op.value ∧ op.value < 0xFF00 := by
  decide +kernel

/-- No two opcodes share a value. -/
theorem ofValue?_value : ∀ op ∈ all, ofValue? op.value = some op := by
  decide +kernel

/-- An opcode is found by its value. -/
theorem ofValue?_eq_some_iff {value : Int} {op : Opcode} :
    ofValue? value = some op ↔ op ∈ all ∧ (op.value : Int) = value := by
  constructor
  · intro h
    exact ⟨List.mem_of_find?_eq_some h, by simpa using List.find?_some h⟩
  · rintro ⟨hm, rfl⟩
    exact ofValue?_value op hm

/-- An opcode has one byte or two. -/
theorem length_bytes (op : Opcode) : op.bytes.length = op.size := by
  unfold bytes size
  split <;> rfl

theorem size_pos (op : Opcode) : 0 < op.size := by
  unfold size
  split <;> omega

/-- The bytes of a defined opcode: its value, or the extension byte and the low byte of its
value. -/
theorem bytes_of_mem {op : Opcode} (h : op ∈ all) :
    op.value < 0xFE ∧ op.bytes = [UInt8.ofNat op.value] ∨
      op.value = extension.toNat * 256 + (UInt8.ofNat op.value).toNat ∧
        op.bytes = [extension, UInt8.ofNat op.value] := by
  rcases value_range op h with hs | ⟨hl, hu⟩
  · exact Or.inl ⟨hs, by rw [bytes, if_neg (by omega)]⟩
  · refine Or.inr ⟨?_, ?_⟩
    · simp only [extension, UInt8.toNat_ofNat', UInt8.reduceToNat]
      omega
    · rw [bytes, if_pos (by omega)]
      have hq : op.value / 256 = 0xFE := by omega
      rw [hq]
      rfl

end Opcode

namespace OperandKind

/-- Whether an operand of this kind is a token. -/
def isToken : OperandKind → Bool
  | method | field | type | member | signature | text => true
  | _ => false

end OperandKind

/-- A number is a token that an operand of this kind may name: it is of an allowed table, and there
is such a user string or such a row. -/
def Scope.Names (scope : Scope) (kind : OperandKind) (value : Nat) : Prop :=
  (∃ table ∈ kind.tables, (table : Int) = (Token.ofValue value).table) ∧
    if (Token.ofValue value).table = userStringTable then
      (scope.userString (Token.ofValue value).row).isSome
    else (scope.row (Token.ofValue value)).isSome

/-- An instruction as it stands in code. -/
structure Chunk where
  /-- The opcode. -/
  opcode : Opcode
  /-- The bytes of the operand. -/
  operand : Bytes
  deriving DecidableEq, Repr

namespace Chunk

/-- The bytes of a chunk. -/
def bytes (c : Chunk) : Bytes := c.opcode.bytes ++ c.operand

/-- How many bytes a chunk takes. -/
def size (c : Chunk) : Nat := c.opcode.size + c.operand.length

/-- The number of entries that a switch table states. -/
def entryCount (c : Chunk) : Nat := Bytes.number (c.operand.take 4)

/-- A defined opcode with all the bytes of its operand. -/
structure IsComplete (c : Chunk) : Prop where
  /-- The opcode is one of the table. -/
  defined : c.opcode ∈ Opcode.all
  /-- The operand is as long as the opcode says, a switch table as long as it says itself. -/
  operand_length : c.operand.length =
    if c.opcode.isSwitch then 4 + 4 * c.entryCount else c.opcode.operand.size

/-- Where a chunk that starts at an offset may go to, besides the next one: displacements count
from its end. -/
def targets (c : Chunk) (start : Nat) : List Int :=
  if c.opcode.isSwitch then
    (displacements c.entryCount (c.operand.drop 4)).map (((start + c.size : Nat) : Int) + ·)
  else if c.opcode.isBranch then [((start + c.size : Nat) : Int) + Bytes.signed c.operand]
  else []

/-- A token operand names something. -/
def Resolves (scope : Scope) (c : Chunk) : Prop :=
  c.opcode.operand.isToken → scope.Names c.opcode.operand (Bytes.number c.operand)

/-- A chunk takes the bytes of its opcode and of its operand. -/
theorem length_bytes (c : Chunk) : c.bytes.length = c.size := by
  rw [bytes, List.length_append, Opcode.length_bytes, size]

theorem size_pos (c : Chunk) : 0 < c.size :=
  Nat.lt_of_lt_of_le c.opcode.size_pos (Nat.le_add_right _ _)

/-- The bytes of a row of chunks. -/
def join (chunks : List Chunk) : Bytes := chunks.flatMap bytes

/-- Where a chunk of a row starts: behind all those before it. -/
def startOf (chunks : List Chunk) (place : Nat) : Nat := (join (chunks.take place)).length

@[simp] theorem join_nil : join [] = [] := rfl

@[simp] theorem join_cons (c : Chunk) (chunks : List Chunk) :
    join (c :: chunks) = c.bytes ++ join chunks := rfl

@[simp] theorem join_append (a b : List Chunk) : join (a ++ b) = join a ++ join b :=
  List.flatMap_append

@[simp] theorem startOf_zero (chunks : List Chunk) : startOf chunks 0 = 0 := rfl

@[simp] theorem startOf_cons_succ (c : Chunk) (chunks : List Chunk) (place : Nat) :
    startOf (c :: chunks) (place + 1) = c.size + startOf chunks place := by
  simp [startOf, length_bytes]

/-- A chunk starts where the one before it ends. -/
theorem startOf_succ {chunks : List Chunk} {place : Nat} {c : Chunk}
    (h : chunks[place]? = some c) : startOf chunks (place + 1) = startOf chunks place + c.size := by
  rw [startOf, List.take_add_one, h, Option.toList_some, join_append, List.length_append, startOf]
  simp [length_bytes]

/-- Behind the last chunk the code ends. -/
theorem startOf_length (chunks : List Chunk) :
    startOf chunks chunks.length = (join chunks).length := by
  rw [startOf, List.take_length]

/-- Chunks start one behind the other. -/
theorem startOf_lt {chunks : List Chunk} {i j : Nat} (hij : i < j) (hi : i < chunks.length) :
    startOf chunks i < startOf chunks j := by
  induction chunks generalizing i j with
  | nil => simp at hi
  | cons c chunks ih =>
    obtain ⟨j, rfl⟩ : ∃ k, j = k + 1 := ⟨j - 1, by omega⟩
    have hc := c.size_pos
    cases i with
    | zero =>
      rw [startOf_zero, startOf_cons_succ]
      omega
    | succ i =>
      have h := ih (by omega : i < j) (by simpa using hi)
      rw [startOf_cons_succ, startOf_cons_succ]
      omega

/-- No two chunks start at one offset. -/
theorem startOf_inj {chunks : List Chunk} {i j : Nat} (hi : i < chunks.length)
    (hj : j < chunks.length) (h : startOf chunks i = startOf chunks j) : i = j := by
  rcases Nat.lt_trichotomy i j with hl | he | hg
  · have := startOf_lt hl hi
    omega
  · exact he
  · have := startOf_lt hg hj
    omega

end Chunk

/-- Every target of the chunk at a place of a row is the start of a chunk of that row. -/
def Chunk.Lands (chunks : List Chunk) (place : Nat) (c : Chunk) : Prop :=
  ∀ target ∈ c.targets (startOf chunks place),
    ∃ other < chunks.length, target = (startOf chunks other : Int)

/-! ### Cutting code into chunks -/

/-- Chunks that code consists of. -/
structure Parses (code : Bytes) (chunks : List Chunk) : Prop where
  /-- Each is a defined opcode with a whole operand. -/
  complete : ∀ c ∈ chunks, c.IsComplete
  /-- Together they are the code. -/
  covers : Chunk.join chunks = code

/-- Chunks that code consists of, all of whose tokens and targets are good. -/
structure Accepts (scope : Scope) (code : Bytes) (chunks : List Chunk) : Prop
    extends Parses code chunks where
  /-- Each token names something. -/
  resolves : ∀ c ∈ chunks, c.Resolves scope
  /-- Each target is where a chunk starts. -/
  lands : ∀ (place : Nat) (c : Chunk), chunks[place]? = some c → c.Lands chunks place

/-- An opcode that begins a run is determined by the run. -/
theorem Opcode.eq_of_append_eq {op op' : Opcode} (h : op ∈ all) (h' : op' ∈ all) {a b : Bytes}
    (he : op.bytes ++ a = op'.bytes ++ b) : op = op' ∧ a = b := by
  have key : op.value = op'.value ∧ a = b := by
    have hx : extension.toNat = 0xFE := rfl
    rcases bytes_of_mem h with ⟨hv, hb⟩ | ⟨hv, hb⟩ <;>
      rcases bytes_of_mem h' with ⟨hv', hb'⟩ | ⟨hv', hb'⟩ <;>
      rw [hb, hb'] at he <;>
      simp only [List.cons_append, List.nil_append, List.cons.injEq] at he
    · have := congrArg UInt8.toNat he.1
      simp only [UInt8.toNat_ofNat'] at this
      exact ⟨by omega, he.2⟩
    · have := congrArg UInt8.toNat he.1
      simp only [UInt8.toNat_ofNat'] at this
      omega
    · have := congrArg UInt8.toNat he.1
      simp only [UInt8.toNat_ofNat'] at this
      omega
    · exact ⟨by rw [hv, hv', he.2.1], he.2.2⟩
  have hs := ofValue?_value op h
  rw [key.1, ofValue?_value op' h', Option.some.injEq] at hs
  exact ⟨hs.symm, key.2⟩

/-- A chunk that begins a run is determined by the run. -/
theorem Chunk.eq_of_append_eq {c d : Chunk} (hc : c.IsComplete) (hd : d.IsComplete) {a b : Bytes}
    (h : c.bytes ++ a = d.bytes ++ b) : c = d ∧ a = b := by
  rw [bytes, bytes, List.append_assoc, List.append_assoc] at h
  obtain ⟨hop, hrest⟩ := Opcode.eq_of_append_eq hc.defined hd.defined h
  have hlen : c.operand.length = d.operand.length := by
    have lc := hc.operand_length
    have ld := hd.operand_length
    rw [hop] at lc
    by_cases hs : d.opcode.isSwitch
    · rw [if_pos hs] at lc ld
      have ht := congrArg (List.take 4) hrest
      rw [List.take_append_of_le_length (by omega), List.take_append_of_le_length (by omega)] at ht
      rw [lc, ld, entryCount, entryCount, ht]
    · rw [if_neg hs] at lc ld
      rw [lc, ld]
  obtain ⟨hoperand, hab⟩ := List.append_inj hrest hlen
  refine ⟨?_, hab⟩
  cases c
  cases d
  simp_all

/-- There is one way at most to cut code into chunks. -/
theorem Parses.unique {code : Bytes} {chunks others : List Chunk} (h : Parses code chunks)
    (h' : Parses code others) : chunks = others := by
  obtain ⟨hc, rfl⟩ := h
  obtain ⟨ho, he⟩ := h'
  induction chunks generalizing others with
  | nil =>
    cases others with
    | nil => rfl
    | cons d others =>
      have hd := d.size_pos
      have hl := congrArg List.length he
      simp only [Chunk.join_cons, Chunk.join_nil, List.length_append, Chunk.length_bytes,
        List.length_nil] at hl
      omega
  | cons c chunks ih =>
    cases others with
    | nil =>
      have hd := c.size_pos
      have hl := congrArg List.length he
      simp only [Chunk.join_cons, Chunk.join_nil, List.length_append, Chunk.length_bytes,
        List.length_nil] at hl
      omega
    | cons d others =>
      rw [Chunk.join_cons, Chunk.join_cons] at he
      obtain ⟨rfl, hr⟩ := Chunk.eq_of_append_eq (ho d (by simp)) (hc c (by simp)) he
      rw [ih (fun x hx => hc x (by simp [hx])) (fun x hx => ho x (by simp [hx])) hr]

end CilRestore
