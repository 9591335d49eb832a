import CilRestore.Body.Clause
import CilRestore.Bytes.Basic
import CilRestore.Body.Serialize

/-!
# Method bodies from bytes

Reading a body gives its header, its code and its clauses, and how many bytes it takes in the file.
Every read stays inside the file, and the only fault is that of an invalid header.
-/

namespace CilRestore

-- Powers and sums of numbers are those of the core library, whatever else is imported.
attribute [local instance (high)] instPowNat Zero.ofOfNat0

/-- A method body as it stands in a file. -/
structure Stub where
  /-- The stack depth that the header promises. -/
  maxStack : Nat := 8
  /-- The code. -/
  code : Bytes := []
  /-- The token of the signature of the local variables, 0 for none. -/
  locals : Int := 0
  /-- Whether the local variables start as zero. -/
  initLocals : Bool := false
  /-- The exception clauses. -/
  clauses : List Clause := []
  /-- The bytes of the header. -/
  headerSize : Nat := 0
  /-- The bytes of header, code and sections; 0 when the body is not in a file. -/
  totalSize : Nat := 0
  /-- Whether the header is tiny. -/
  isTiny : Bool := false
  deriving DecidableEq, Repr

namespace Stub

/-- Split bytes into fields of these widths. -/
def readFields : List Nat → Bytes → List Int
  | [], _ => []
  | width :: widths, bs => Bytes.number (bs.take width) :: readFields widths (bs.drop width)

/-- The clauses of a section, each of the same widths. -/
def readClauses (widths : List Nat) : Nat → Bytes → List Clause
  | 0, _ => []
  | count + 1, bs =>
    (Clause.ofFields? (readFields widths bs)).toList ++
      readClauses widths count (bs.drop widths.sum)

/-- The sections from an offset on: their clauses and the offset behind them. Each section takes
four bytes of the file at least, so every step leaves fewer of them. -/
def readSections (data : Bytes) (token : Int) (offset : Nat) (done : List Clause) :
    Except Fault (List Clause × Nat) :=
  let start := Bytes.alignNat offset 4
  match _ : data.drop start with
  | kind :: a :: b :: c :: rest =>
    let kind := kind.toNat
    let isFat := kind &&& BodyFormat.fatSection ≠ 0
    let size := if isFat then Bytes.number [a, b, c] else a.toNat
    if size < 4 || (rest.take (size - 4)).length < size - 4 then
      .error (.invalidHeader token)
    else
      let widths := if isFat then Clause.fatWidths else Clause.smallWidths
      let here :=
        if kind &&& BodyFormat.clauseSection ≠ 0 then
          readClauses widths ((size - 4) / widths.sum) rest
        else []
      let done := done ++ here
      if kind &&& BodyFormat.anotherSection = 0 then .ok (done, start + size)
      else readSections data token (start + size) done
  | _ => .error (.invalidHeader token)
termination_by data.length - offset
decreasing_by
  rename_i hdrop hshort _
  have hle : offset ≤ start := Bytes.le_alignNat offset (by decide)
  have hlen := congrArg List.length hdrop
  simp only [List.length_drop, List.length_cons] at hlen
  simp only [Bool.or_eq_true, decide_eq_true_eq, not_or] at hshort
  change data.length - (start + size) < data.length - offset
  omega

/-- Read a body with a tiny header. -/
def parseTiny (token : Int) (first : Nat) (rest : Bytes) : Except Fault Stub :=
  let size := first / 4
  let code := rest.take size
  if code.length < size then .error (.invalidHeader token)
  else .ok { code, headerSize := 1, totalSize := 1 + size, isTiny := true }

/-- Read a body with a fat header. -/
def parseFat (data : Bytes) (token : Int) (offset : Nat) : Except Fault Stub := do
  let body := data.drop offset
  if (body.take 12).length < 12 then throw (.invalidHeader token)
  let flags := Bytes.field body 0 2
  let headerSize := flags / 2 ^ (12 : Nat) * 4
  let codeSize := Bytes.field body 4 4
  let code := Bytes.slice body headerSize codeSize
  if headerSize < 12 then throw (.invalidHeader token)
  if code.length < codeSize || (body.take headerSize).length < headerSize then
    throw (.invalidHeader token)
  let codeEnd := offset + headerSize + codeSize
  let (clauses, stop) ←
    if flags &&& BodyFormat.moreSections ≠ 0 then
      readSections data token codeEnd []
    else pure ([], codeEnd)
  return {
    maxStack := Bytes.field body 2 2
    code
    locals := Bytes.field body 8 4
    initLocals := flags &&& BodyFormat.initLocals ≠ 0
    clauses
    headerSize
    totalSize := stop - offset }

/-- Read the body at an offset; `token` is the one that a fault names. -/
def parse (data : Bytes) (offset : Option Int) (token : Int) : Except Fault Stub :=
  match offset with
  | none => .error (.invalidHeader token)
  | some offset =>
    if offset < 0 then .error (.invalidHeader token)
    else
      match data.drop offset.toNat with
      | [] => .error (.invalidHeader token)
      | first :: rest =>
        let first := first.toNat
        if first % 4 = BodyFormat.tiny then parseTiny token first rest
        else if first % 4 = BodyFormat.fat then parseFat data token offset.toNat
        else .error (.invalidHeader token)

end Stub

end CilRestore
