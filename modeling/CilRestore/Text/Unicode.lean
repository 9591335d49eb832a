import CilRestore.Bytes.Basic

/-!
# Encoded text

Readers of the three text encodings that metadata uses. The reader of UTF-8 splits bytes into
characters and maximal ill-formed parts, so that one reader serves both those who refuse such a
part and those who put the replacement character in its place. The reader of UTF-16 refuses
a surrogate without its partner and a half unit at the end.
-/

namespace CilRestore.Text

/-- The character that stands for bytes that encode none. -/
def replacement : Char := '\uFFFD'

namespace Utf8

/-- Whether a byte may continue a character. -/
def isTail (b : UInt8) : Bool := 0x80 ≤ b && b ≤ 0xBF

/-- How many bytes follow a first byte, and the range of the second one. -/
def shape? (b : UInt8) : Option (Nat × UInt8 × UInt8) :=
  if b < 0x80 then some (0, 0, 0)
  else if b < 0xC2 then none
  else if b < 0xE0 then some (1, 0x80, 0xBF)
  else if b = 0xE0 then some (2, 0xA0, 0xBF)
  else if b = 0xED then some (2, 0x80, 0x9F)
  else if b < 0xF0 then some (2, 0x80, 0xBF)
  else if b = 0xF0 then some (3, 0x90, 0xBF)
  else if b < 0xF4 then some (3, 0x80, 0xBF)
  else if b = 0xF4 then some (3, 0x80, 0x8F)
  else none

/-- The bytes after a first one that go on with its character, at most `count` of them. -/
def followers (count : Nat) (low high : UInt8) (rest : Bytes) : Bytes :=
  match count, rest with
  | 0, _ => []
  | _, [] => []
  | count + 1, b :: more =>
    if low ≤ b && b ≤ high then b :: (more.take count).takeWhile isTail else []

/-- The code point of a first byte and its followers. -/
def codePoint (first : UInt8) (tail : Bytes) : Nat :=
  let head := match tail.length with
    | 0 => first.toNat
    | 1 => first.toNat % 0x20
    | 2 => first.toNat % 0x10
    | _ => first.toNat % 0x08
  tail.foldl (fun n b => n * 64 + b.toNat % 64) head

/-- Split bytes into characters; `none` stands for one maximal ill-formed part. -/
def scan : Bytes → List (Option Char)
  | [] => []
  | first :: rest =>
    match shape? first with
    | none => none :: scan rest
    | some (count, low, high) =>
      let tail := followers count low high rest
      let here := if tail.length = count then some (Char.ofNat (codePoint first tail)) else none
      here :: scan (rest.drop tail.length)
termination_by bs => bs.length
decreasing_by all_goals simp only [List.length_drop, List.length_cons]; omega

/-- The text that bytes encode, ill-formed parts replaced. -/
def decodeLossy (bs : Bytes) : String :=
  String.ofList ((scan bs).map (·.getD replacement))

/-- The text that bytes encode, when they are well-formed. -/
def decode? (bs : Bytes) : Option String :=
  ((scan bs).mapM id).map String.ofList

end Utf8

namespace Utf16

/-- The code units that little-endian bytes spell; a half unit at the end is refused. -/
def units? : Bytes → Option (List Nat)
  | [] => some []
  | [_] => none
  | low :: high :: rest => (units? rest).map ((low.toNat + 256 * high.toNat) :: ·)

/-- The characters that code units spell; a surrogate without its partner is refused. -/
def characters? : List Nat → Option (List Char)
  | [] => some []
  | [u] => if 0xD800 ≤ u ∧ u < 0xE000 then none else some [Char.ofNat u]
  | u :: v :: rest =>
    if 0xD800 ≤ u ∧ u < 0xDC00 then
      if 0xDC00 ≤ v ∧ v < 0xE000 then
        (characters? rest).map
          (Char.ofNat (0x10000 + (u - 0xD800) * 1024 + (v - 0xDC00)) :: ·)
      else none
    else if 0xDC00 ≤ u ∧ u < 0xE000 then none
    else (characters? (v :: rest)).map (Char.ofNat u :: ·)

/-- The text that little-endian bytes encode. -/
def decode? (bs : Bytes) : Option String :=
  (units? bs).bind fun us => (characters? us).map String.ofList

end Utf16

/-- The text of ASCII bytes, every other byte replaced. -/
def decodeAscii (bs : Bytes) : String :=
  String.ofList (bs.map fun b => if b < 0x80 then Char.ofNat b.toNat else replacement)

end CilRestore.Text
