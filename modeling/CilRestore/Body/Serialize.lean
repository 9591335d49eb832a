import CilRestore.Body.Layout
import CilRestore.Body.StackDepth
import CilRestore.Instruction.Encode

/-!
# Method bodies as bytes

A body is a header, the code, and sections with the exception clauses. A tiny header is one byte and
serves short code that needs nothing else; a fat header holds the stack depth, the code size and the
token of the local variables. Clauses are written small when there are few of them and their offsets
and lengths fit, else all of them fat.
-/

namespace CilRestore

-- Powers of numbers are those of the core library, whatever else is imported.
attribute [local instance (high)] instPowNat

/-! ### The bits of headers and sections -/

namespace BodyFormat

/-- The format in the low two bits of a header. -/
def formatMask : Nat := 0x3

/-- A tiny header. -/
def tiny : Nat := 0x2

/-- A fat header. -/
def fat : Nat := 0x3

/-- Sections follow the code. -/
def moreSections : Nat := 0x8

/-- The local variables start as zero. -/
def initLocals : Nat := 0x10

/-- A section of exception clauses. -/
def clauseSection : Nat := 0x1

/-- A section with fat entries. -/
def fatSection : Nat := 0x40

/-- Another section follows. -/
def anotherSection : Nat := 0x80

/-- The longest code of a tiny header. -/
def tinyCodeLimit : Nat := 63

/-- The stack depth that a tiny header promises. -/
def tinyStackLimit : Nat := 8

/-- The most clauses of a section with small entries. -/
def smallClauseLimit : Nat := 20

end BodyFormat

/-- Unsigned fields one behind the other, each a width and a value. -/
def encodeFields (fields : List (Nat × Int)) : Except Fault Bytes :=
  List.flatten <$> fields.mapM fun field => fitting (Bytes.unsigned? field.1 field.2)

namespace Clause

/-- Whether a clause fits the small form. -/
def isSmall (c : Clause) : Bool :=
  Bytes.sizeOfNumber c.flags ≤ 2 && Bytes.sizeOfNumber c.tryOffset ≤ 2 &&
    Bytes.sizeOfNumber c.tryLength ≤ 1 && Bytes.sizeOfNumber c.handlerOffset ≤ 2 &&
    Bytes.sizeOfNumber c.handlerLength ≤ 1

/-- The widths of the fields of a small clause. -/
def smallWidths : List Nat := [2, 2, 1, 2, 1, 4]

/-- The widths of the fields of a fat clause. -/
def fatWidths : List Nat := [4, 4, 4, 4, 4, 4]

/-- The bytes of a clause. -/
def encode (widths : List Nat) (c : Clause) : Except Fault Bytes :=
  encodeFields (widths.zip c.fields)

/-- The section of clauses. -/
def encodeSection (clauses : List Clause) : Except Fault Bytes := do
  if clauses.length ≤ BodyFormat.smallClauseLimit && clauses.all isSmall then
    let head ← encodeFields
      [(1, BodyFormat.clauseSection), (1, clauses.length * 12 + 4), (2, 0)]
    return head ++ (← clauses.mapM (encode smallWidths)).flatten
  else
    let head ← encodeFields
      [(1, BodyFormat.fatSection + BodyFormat.clauseSection), (3, clauses.length * 24 + 4)]
    return head ++ (← clauses.mapM (encode fatWidths)).flatten

end Clause

/-- What a header says besides the code. -/
structure BodyHeader where
  /-- The token of the signature of the local variables, 0 for none. -/
  locals : Int
  /-- Whether the local variables start as zero. -/
  initLocals : Bool
  deriving DecidableEq, Repr

/-- Whether a body can have a tiny header. -/
def isTinyBody (header : BodyHeader) (layout : Layout) (depth : Nat) : Bool :=
  layout.codeSize ≤ BodyFormat.tinyCodeLimit && header.locals == 0 && layout.clauses.isEmpty &&
    !header.initLocals && depth ≤ BodyFormat.tinyStackLimit

/-- A fat header; its own size, three words, stands in the high bits of the flags. -/
def encodeFatHeader (header : BodyHeader) (layout : Layout) (depth : Nat) : Except Fault Bytes :=
  encodeFields
    [(2, BodyFormat.fat + (if layout.clauses.isEmpty then 0 else BodyFormat.moreSections) +
        (if header.initLocals then BodyFormat.initLocals else 0) + 3 * 2 ^ (12 : Nat)),
      (2, depth), (4, layout.codeSize), (4, header.locals)]

/-- The bytes of a body that has been laid out. -/
def serialize (p : Pool) (order : List Nat) (header : BodyHeader) (layout : Layout) :
    Except Fault Bytes := do
  let depth ← StackDepth.deepest p order layout.clauses
  if 0xFFFF < depth then throw .methodTooLarge
  if isTinyBody header layout depth then
    let head ← encodeFields [(1, layout.codeSize * 4 + BodyFormat.tiny)]
    return head ++ (← p.encodeAll order)
  else
    let head ← encodeFatHeader header layout depth
    let body := head ++ (← p.encodeAll order)
    if layout.clauses.isEmpty then return body
    let padded := Bytes.padTo body (Bytes.alignNat body.length 4)
    return padded ++ (← Clause.encodeSection layout.clauses)

end CilRestore
