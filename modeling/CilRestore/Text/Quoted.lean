import CilRestore.Text.Hex
import CilRestore.Text.Printable

/-!
# Quoted text

A text between quotes, with everything that cannot be shown escaped. Single quotes are used unless
the text holds one and holds no double quote, so a quote is escaped only where both occur.
-/

namespace CilRestore.Text

/-- The quote put around a text. -/
def quoteFor (cs : List Char) : Char :=
  if cs.contains '\'' && !cs.contains '"' then '"' else '\''

/-- The escape of a character by its number: two, four or eight hexadecimal places. -/
def numericEscape (n : Nat) : List Char :=
  if n < 0x100 then '\\' :: 'x' :: padZeros 2 (hexDigits n)
  else if n < 0x10000 then '\\' :: 'u' :: padZeros 4 (hexDigits n)
  else '\\' :: 'U' :: padZeros 8 (hexDigits n)

/-- A character as it stands between quotes. -/
def escape (quote c : Char) : List Char :=
  if c = quote || c = '\\' then ['\\', c]
  else if c = '\t' then ['\\', 't']
  else if c = '\n' then ['\\', 'n']
  else if c = '\r' then ['\\', 'r']
  else if isPrintable c then [c]
  else numericEscape c.toNat

/-- A text between quotes. -/
def quoted (s : String) : String :=
  let cs := s.toList
  let quote := quoteFor cs
  String.ofList (quote :: cs.flatMap (escape quote) ++ [quote])

end CilRestore.Text
