/-!
# Numbers in messages

Messages show numbers in lower-case hexadecimal behind `0x`, with the sign in front. Code offsets
are shown as labels of at least four digits; the sign of a negative one counts as a digit.
-/

namespace CilRestore.Text

/-- The digits of a number in lower-case hexadecimal. -/
def hexDigits (n : Nat) : List Char := Nat.toDigits 16 n

/-- A signed number in hexadecimal, as messages show it. -/
def hex (n : Int) : String :=
  (if n < 0 then "-0x" else "0x") ++ String.ofList (hexDigits n.natAbs)

/-- Characters filled up from the left with zeros. -/
def padZeros (width : Nat) (cs : List Char) : List Char :=
  List.replicate (width - cs.length) '0' ++ cs

/-- The label of a code offset: `IL_` and four hexadecimal places, the sign taking one. -/
def offsetLabel (n : Int) : String :=
  if n < 0 then "IL_-" ++ String.ofList (padZeros 3 (hexDigits n.natAbs))
  else "IL_" ++ String.ofList (padZeros 4 (hexDigits n.natAbs))

end CilRestore.Text
