import CilRestore.Binary.Format
import CilRestore.Instruction.Basic

/-!
# Instructions from bytes

Decoding goes over the code twice. The first time it splits the code into instructions, in address
order, and resolves every token against a scope; the second time it turns the offsets that branches
name into instructions. So a bad opcode, operand or token is reported before any bad target, and
each kind at the first offset that has it.
-/

namespace CilRestore

/-- What tokens stand for. -/
structure Scope where
  /-- The row that a token names. -/
  row : Token → Option NamedRow
  /-- The user string at an index of the heap. -/
  userString : Nat → Option String

/-- The tables that a token operand may name. -/
def OperandKind.tables : OperandKind → List Nat
  | .method => [0x06, 0x0A, 0x2B]
  | .field => [0x04, 0x0A]
  | .type => [0x02, 0x01, 0x1B]
  | .member => [0x02, 0x01, 0x1B, 0x04, 0x06, 0x0A, 0x2B]
  | .signature => [0x11]
  | .text => [userStringTable]
  | _ => []

/-- The first bytes of a run and the rest, when there are as many. -/
def splitExactly? (count : Nat) (bs : Bytes) : Option (Bytes × Bytes) :=
  let first := bs.take count
  if first.length = count then some (first, bs.drop count) else none

/-- The numbers of a table with entries of four bytes. -/
def displacements : Nat → Bytes → List Int
  | 0, _ => []
  | count + 1, bs => Bytes.signed (bs.take 4) :: displacements count (bs.drop 4)

/-- An operand whose targets are still offsets. -/
inductive RawOperand where
  /-- An operand without targets. -/
  | ready (operand : Operand)
  /-- The offset that a branch names. -/
  | offset (target : Int)
  /-- The offsets that a switch names. -/
  | offsets (targets : List Int)
  deriving DecidableEq, Repr

/-- An instruction whose targets are still offsets. -/
structure RawInstruction where
  /-- Where it starts. -/
  start : Nat
  /-- The opcode. -/
  opcode : Opcode
  /-- The operand. -/
  operand : RawOperand
  deriving DecidableEq, Repr

namespace Decode

/-- The fault of an instruction. -/
def undecodable {α : Type} (start : Int) (reason : String) : Except Fault α :=
  .error (.undecodable start reason)

/-- Split an opcode off the code: its value and what follows it. -/
def opcodeValue (start : Nat) : Bytes → Except Fault (Nat × Bytes)
  | [] => undecodable start "truncated operand"
  | first :: rest =>
    if first = Opcode.extension then
      match rest with
      | [] => undecodable start "truncated two byte opcode"
      | second :: rest => .ok (Opcode.extension.toNat * 256 + second.toNat, rest)
    else .ok (first.toNat, rest)

/-- The defined opcode at the start of the code. -/
def opcode (start : Nat) (code : Bytes) : Except Fault (Opcode × Bytes) := do
  let (value, rest) ← opcodeValue start code
  match Opcode.ofValue value with
  | .ok op => return (op, rest)
  | .error e => undecodable start e.message

/-- What the token of an operand stands for. -/
def token (scope : Scope) (owner : String) (start : Nat) (kind : OperandKind) (value : Nat) :
    Except Fault Operand :=
  let t := Token.ofValue value
  if ¬kind.tables.any (fun table => (table : Int) = t.table) then
    undecodable start ("token " ++ Text.hex value ++ " (" ++ tableName t.table ++
      ") is not valid for this operand in " ++ owner)
  else if t.table = userStringTable then
    match scope.userString t.row with
    | some text => .ok (.text value text)
    | none =>
      undecodable start ("user string " ++ Text.hex value ++ " does not exist in " ++ owner)
  else
    match scope.row t with
    | some row => .ok (.row row)
    | none => undecodable start ("token " ++ Text.hex value ++ " does not resolve in " ++ owner)

/-- The binary64 bits of a binary32 number. -/
def widenedReal (bits : Nat) : UInt64 :=
  UInt64.ofNat ((Binary.single.convert? Binary.double bits).getD 0)

/-- The operand in its bytes; `stop` is the offset behind it. -/
def operand (scope : Scope) (owner : String) (start stop : Nat) (op : Opcode) (raw : Bytes) :
    Except Fault RawOperand :=
  let ready (operand : Operand) : Except Fault RawOperand := .ok (.ready operand)
  match op.operand with
  | .nothing => ready .nothing
  | .shortVariable | .longVariable => ready (.integer (Bytes.number raw))
  | .shortInteger =>
    ready (.integer (if op.value = Opcode.loadSignedByte then Bytes.signed raw
      else Bytes.number raw))
  | .integer | .longInteger => ready (.integer (Bytes.signed raw))
  | .shortReal => ready (.real (widenedReal (Bytes.number raw)))
  | .real => ready (.real (UInt64.ofNat (Bytes.number raw)))
  | .shortBranch | .branch => .ok (.offset (stop + Bytes.signed raw))
  | .switch => .ok (.offsets [])
  | kind => .ready <$> token scope owner start kind (Bytes.number raw)

/-- The operand of a switch and what follows it. -/
def table (start : Nat) (op : Opcode) (code : Bytes) : Except Fault (RawOperand × Bytes × Nat) :=
  match splitExactly? 4 code with
  | none => undecodable start "truncated switch count"
  | some (head, rest) =>
    let count := Bytes.number head
    match splitExactly? (4 * count) rest with
    | none => undecodable start "truncated switch table"
    | some (entries, rest) =>
      let stop := start + op.size + 4 + 4 * count
      .ok (.offsets ((displacements count entries).map fun d => (stop : Int) + d), rest, stop)

/-- Split one instruction off the code: the instruction, what follows it and the offset there. -/
def instruction (scope : Scope) (owner : String) (start : Nat) (code : Bytes) :
    Except Fault (RawInstruction × Bytes × Nat) := do
  let (op, rest) ← opcode start code
  if op.isSwitch then
    let (raw, rest, stop) ← table start op rest
    return (⟨start, op, raw⟩, rest, stop)
  else
    let size := op.operand.size
    match splitExactly? size rest with
    | none => undecodable start ("truncated operand for " ++ op.mnemonic)
    | some (raw, rest) =>
      let stop := start + op.size + size
      return (⟨start, op, ← operand scope owner start stop op raw⟩, rest, stop)

theorem length_le_of_splitExactly? {count : Nat} {bs first rest : Bytes}
    (h : splitExactly? count bs = some (first, rest)) : rest.length ≤ bs.length := by
  unfold splitExactly? at h
  simp only at h
  split at h
  · cases h
    rw [List.length_drop]
    omega
  · cases h

/-- An opcode takes one byte at least, so reading code comes to an end. -/
theorem length_lt_of_opcode {start : Nat} {code rest : Bytes} {op : Opcode}
    (h : opcode start code = .ok (op, rest)) : rest.length < code.length := by
  unfold opcode at h
  cases hvalue : opcodeValue start code with
  | error e => simp [hvalue, bind, Except.bind] at h
  | ok found =>
    obtain ⟨value, behind⟩ := found
    have hbehind : behind.length < code.length := by
      unfold opcodeValue at hvalue
      split at hvalue
      · cases hvalue
      · split at hvalue
        · split at hvalue
          · cases hvalue
          · cases hvalue
            simp only [List.length_cons]
            omega
        · cases hvalue
          simp only [List.length_cons]
          omega
    simp only [hvalue, bind, Except.bind] at h
    split at h
    · cases h
      exact hbehind
    · cases h

theorem length_le_of_table {start stop : Nat} {op : Opcode} {code rest : Bytes} {raw : RawOperand}
    (h : table start op code = .ok (raw, rest, stop)) : rest.length ≤ code.length := by
  unfold table at h
  split at h
  · cases h
  · rename_i head behind hhead
    simp only at h
    split at h
    · cases h
    · rename_i entries after hentries
      cases h
      exact Nat.le_trans (length_le_of_splitExactly? hentries) (length_le_of_splitExactly? hhead)

/-- An instruction takes a byte at least: that of its opcode. -/
theorem length_lt_of_instruction {scope : Scope} {owner : String} {start stop : Nat}
    {code rest : Bytes} {raw : RawInstruction}
    (h : instruction scope owner start code = .ok (raw, rest, stop)) :
    rest.length < code.length := by
  unfold instruction at h
  cases hop : opcode start code with
  | error e => simp [hop, bind, Except.bind] at h
  | ok found =>
    obtain ⟨op, behind⟩ := found
    have hbehind := length_lt_of_opcode hop
    simp only [hop, bind, Except.bind] at h
    split at h
    · cases htable : table start op behind with
      | error e => simp [htable] at h
      | ok found =>
        obtain ⟨operand, after, stop⟩ := found
        simp only [htable, pure, Except.pure, Except.ok.injEq, Prod.mk.injEq] at h
        obtain ⟨-, rfl, -⟩ := h
        exact Nat.lt_of_le_of_lt (length_le_of_table htable) hbehind
    · split at h
      · cases h
      · rename_i bytes after hsplit
        have hle := length_le_of_splitExactly? hsplit
        split at h
        · cases h
        · cases h
          exact Nat.lt_of_le_of_lt hle hbehind

/-- Split code into instructions; `done` holds the ones before, last first. -/
def split (scope : Scope) (owner : String) (start : Nat) (code : Bytes)
    (done : List RawInstruction) : Except Fault (List RawInstruction) :=
  if code.isEmpty then .ok done.reverse
  else
    match _ : instruction scope owner start code with
    | .error e => .error e
    | .ok (raw, rest, stop) => split scope owner stop rest (raw :: done)
termination_by code.length
decreasing_by exact length_lt_of_instruction ‹_›

/-- The place of the instruction that starts at an offset. -/
def placeOf? (starts : List Nat) (target : Int) : Option Nat :=
  if target < 0 then none else starts.idxOf? target.toNat

/-- A target as the place of an instruction. -/
def place (starts : List Nat) (start : Nat) (what : String) (target : Int) : Except Fault Nat :=
  match placeOf? starts target with
  | some place => .ok place
  | none =>
    undecodable start (what ++ " target " ++ Text.hex target ++ " is not an instruction boundary")

/-- An operand with the instructions that it goes to. -/
def link (starts : List Nat) (start : Nat) : RawOperand → Except Fault Operand
  | .ready operand => .ok operand
  | .offset target => .target <$> place starts start "branch" target
  | .offsets targets => .targets <$> targets.mapM (place starts start "switch")

end Decode

/-- Decode code into a pool whose order is that of the addresses. -/
def decode (scope : Scope) (owner : String) (code : Bytes) : Except Fault Pool := do
  let raws ← Decode.split scope owner 0 code []
  let starts := raws.map (·.start)
  let linked ← raws.mapM fun raw =>
    return (raw, ← Decode.link starts raw.start raw.operand)
  return (linked.mapIdx fun place (raw, operand) =>
    Instruction.mk raw.opcode operand raw.start place).toArray

end CilRestore
