import CilRestore.Binary.Shortest
import CilRestore.Instruction.Basic
import CilRestore.Text.Blank
import CilRestore.Text.Quoted

/-!
# Instructions as text

A line of disassembly shows the offset, the mnemonic and the operand; a target is shown by the
offset it has now. Blanks at the end of a line are dropped.
-/

namespace CilRestore

/-- A user string as the operand of an instruction. -/
structure UserString where
  /-- The number of the token that names it. -/
  token : Int
  /-- The text. -/
  value : String
  deriving DecidableEq, Repr

namespace UserString

/-- The text as a line of disassembly shows it. -/
def shown (s : UserString) : String := "\"" ++ s.value ++ "\""

/-- The text with its token, everything that cannot be shown escaped. -/
def describe (s : UserString) : String :=
  "UserString(" ++ Text.hex s.token ++ ", " ++ Text.quoted s.value ++ ")"

end UserString

namespace Pool

/-- An operand as a line of disassembly shows it. -/
def operandText (p : Pool) : Operand → String
  | .nothing => ""
  | .integer value => toString value
  | .flag value => if value then "True" else "False"
  | .real bits => Binary.text Binary.operandText Binary.double bits.toNat
  | .text token value => (UserString.mk token value).shown
  | .target id => Text.offsetLabel (p.fetch id).offset
  | .targets ids =>
    "(" ++ ", ".intercalate (ids.map fun id => Text.offsetLabel (p.fetch id).offset) ++ ")"
  | .row r => r.fullName.getD ""
  | .token value _ => Text.hex value

/-- A line of disassembly. -/
def line (p : Pool) (i : Instruction) : String :=
  Text.trimRight
    (Text.offsetLabel i.offset ++ ": " ++ i.opcode.mnemonic ++ " " ++ p.operandText i.operand)

/-- A line of disassembly as messages show it. -/
def describe (p : Pool) (i : Instruction) : String := "<Instruction " ++ p.line i ++ ">"

end Pool

end CilRestore
