/-!
# Blanks

The characters that count as blank at the ends of a text: those of Unicode's class of white space
and the four separators of ASCII. `trimRight` drops them from the end of a text.
-/

namespace CilRestore.Text

/-- Blank characters: white space of Unicode and the ASCII separators. -/
def isBlank (c : Char) : Bool :=
  let n := c.toNat
  (9 ≤ n && n ≤ 13) || (28 ≤ n && n ≤ 32) || n == 0x85 || n == 0xA0 || n == 0x1680 ||
    (0x2000 ≤ n && n ≤ 0x200A) || n == 0x2028 || n == 0x2029 || n == 0x202F || n == 0x205F ||
    n == 0x3000

/-- A text without the blanks at its end. -/
def trimRight (s : String) : String :=
  String.ofList (s.toList.reverse.dropWhile isBlank).reverse

end CilRestore.Text
