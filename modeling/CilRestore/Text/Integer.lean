import CilRestore.Text.Blank

/-!
# Integer literals

The reader of integers in command arguments: blanks around, a sign, a base mark (`0x`, `0o`, `0b`
in either case), and digits that single underscores may separate. Without a base mark a leading
zero is allowed only in zero itself, and no more than 4300 digits are. The separators of ASCII are
no blanks here.
-/

namespace CilRestore.Text

/-- The zeros of the decimal digits of all scripts beyond ASCII; nine more digits follow each. -/
def scriptZeros : List Nat :=
  [0x660, 0x6F0, 0x7C0, 0x966, 0x9E6, 0xA66, 0xAE6, 0xB66, 0xBE6, 0xC66, 0xCE6, 0xD66, 0xDE6,
    0xE50, 0xED0, 0xF20, 0x1040, 0x1090, 0x17E0, 0x1810, 0x1946, 0x19D0, 0x1A80, 0x1A90, 0x1B50,
    0x1BB0, 0x1C40, 0x1C50, 0xA620, 0xA8D0, 0xA900, 0xA9D0, 0xA9F0, 0xAA50, 0xABF0, 0xFF10,
    0x104A0, 0x10D30, 0x11066, 0x110F0, 0x11136, 0x111D0, 0x112F0, 0x11450, 0x114D0, 0x11650,
    0x116C0, 0x11730, 0x118E0, 0x11950, 0x11C50, 0x11D50, 0x11DA0, 0x16A60, 0x16AC0, 0x16B50,
    0x1D7CE, 0x1D7D8, 0x1D7E2, 0x1D7EC, 0x1D7F6, 0x1E140, 0x1E2F0, 0x1E950, 0x1FBF0]

/-- A decimal digit of any script as the ASCII digit of the same value. -/
def plainDigit (c : Char) : Char :=
  match scriptZeros.find? fun first => first ≤ c.toNat && c.toNat < first + 10 with
  | some first => Char.ofNat (48 + (c.toNat - first))
  | none => c

/-- The value of a digit, letters counting from ten. -/
def digitValue? (c : Char) : Option Nat :=
  let n := c.toNat
  if 48 ≤ n && n ≤ 57 then some (n - 48)
  else if 97 ≤ n && n ≤ 122 then some (n - 87)
  else if 65 ≤ n && n ≤ 90 then some (n - 55)
  else none

/-- The digits of a numeral in a base, single underscores between digits left out. `afterDigit`
says that an underscore may stand here. -/
def digits? (base : Nat) : Bool → List Char → Option (List Nat)
  | _, [] => some []
  | afterDigit, c :: rest =>
    if c = '_' then
      match afterDigit, rest with
      | true, _ :: _ => digits? base false rest
      | _, _ => none
    else
      match digitValue? c with
      | some d => if d < base then (digits? base true rest).map (d :: ·) else none
      | none => none

/-- The value of a numeral from its digits. -/
def numeralValue (base : Nat) (ds : List Nat) : Nat := ds.foldl (fun n d => n * base + d) 0

/-- The base that a mark after a leading zero names. -/
def markedBase? : List Char → Option (Nat × List Char)
  | '0' :: mark :: rest =>
    if mark = 'x' || mark = 'X' then some (16, rest)
    else if mark = 'o' || mark = 'O' then some (8, rest)
    else if mark = 'b' || mark = 'B' then some (2, rest)
    else none
  | _ => none

/-- The magnitude that a literal without sign and blanks spells. -/
def magnitude? (cs : List Char) : Option Nat :=
  match markedBase? cs with
  | some (base, rest) =>
    match digits? base true rest with
    | some (d :: ds) => some (numeralValue base (d :: ds))
    | _ => none
  | none =>
    match digits? 10 false cs with
    | some (d :: ds) =>
      let value := numeralValue 10 (d :: ds)
      if 4300 < (d :: ds).length || (d = 0 && value ≠ 0) then none else some value
    | _ => none

/-- The blanks that may stand around a literal: all but the separators of ASCII. -/
def isPadding (c : Char) : Bool := isBlank c && !(28 ≤ c.toNat && c.toNat ≤ 31)

/-- The integer that a literal spells. -/
def integer? (s : String) : Option Int :=
  let trimmed := ((s.toList.dropWhile isPadding).reverse.dropWhile isPadding).reverse.map plainDigit
  match trimmed with
  | '-' :: rest => (magnitude? rest).map fun n => -(n : Int)
  | '+' :: rest => (magnitude? rest).map fun n => (n : Int)
  | rest => (magnitude? rest).map fun n => (n : Int)

end CilRestore.Text
