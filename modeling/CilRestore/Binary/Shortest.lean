import CilRestore.Binary.Format

/-!
# Shortest decimal text

A binary number is shown by the fewest decimal digits that still read back as the same number, and
by the nearest such decimal, a tie going to the even digit. The numbers that read back as a given
one form an interval; the candidates with a given count of digits are the two neighbours of the
value on that decimal grid. How digits become text is one record, `RealText`.
-/

namespace CilRestore.Binary

-- Powers of numbers are those of the core library, whatever else is imported.
attribute [local instance (high)] instPowNat

/-- A positive number as a quotient, with the ends of the interval that reads back as it, all over
one denominator. -/
structure Interval where
  /-- The numerator of the lower end. -/
  low : Nat
  /-- The numerator of the value. -/
  value : Nat
  /-- The numerator of the upper end. -/
  high : Nat
  /-- The common denominator. -/
  denominator : Nat
  /-- Whether the ends belong to the interval. -/
  closed : Bool

namespace Interval

/-- The interval of a positive number of a format. Below a power of two the neighbours lie half as
far apart. -/
def ofMagnitude (f : Format) (significand : Nat) (exponent : Int) : Interval :=
  let below := if significand = f.exponentWeight && f.minExponent < exponent then 1 else 2
  let scale := 2 ^ exponent.toNat
  { low := (4 * significand - below) * scale
    value := 4 * significand * scale
    high := (4 * significand + 2) * scale
    denominator := 4 * 2 ^ (-exponent).toNat
    closed := significand % 2 == 0 }

/-- Whether `n * 10 ^ place` lies in the interval. -/
def holds (i : Interval) (n : Nat) (place : Int) : Bool :=
  let up := 10 ^ place.toNat
  let down := 10 ^ (-place).toNat
  let point := n * up * i.denominator
  if i.closed then i.low * down ≤ point && point ≤ i.high * down
  else i.low * down < point && point < i.high * down

/-- The greatest multiple of `10 ^ place` that is not above the value. -/
def floorAt (i : Interval) (place : Int) : Nat :=
  i.value * 10 ^ (-place).toNat / (i.denominator * 10 ^ place.toNat)

/-- The neighbour of the value on a grid, `n` or `n + 1`, that lies nearer; the even one when both
lie as near. -/
def nearest (i : Interval) (n : Nat) (place : Int) : Nat :=
  let middle := (2 * n + 1) * 10 ^ place.toNat * i.denominator
  let twice := 2 * i.value * 10 ^ (-place).toNat
  if middle < twice then n + 1 else if twice < middle then n else n + n % 2

/-- The candidate of a decimal grid: of the two neighbours of the value the one in the interval,
the nearest one when both are. -/
def candidate? (i : Interval) (place : Int) : Option Nat :=
  let n := i.floorAt place
  match n ≠ 0 && i.holds n place, i.holds (n + 1) place with
  | true, true => some (i.nearest n place)
  | true, false => some n
  | false, true => some (n + 1)
  | false, false => none

/-- The exponent of the first decimal digit, searched downwards. -/
def firstPlace (i : Interval) : Nat → Int → Int
  | 0, place => place
  | fuel + 1, place => if i.floorAt place = 0 then firstPlace i fuel (place - 1) else place

/-- The first grid with a candidate, from the coarsest on. -/
def search (i : Interval) : Nat → Int → Nat × Int
  | 0, place => (i.floorAt place, place)
  | fuel + 1, place =>
    match i.candidate? place with
    | some n => (n, place)
    | none => search i fuel (place - 1)

/-- The fewest digits that read back, as an integer and the power of ten to multiply it with. -/
def shortest (i : Interval) : Nat × Int := i.search 18 (i.firstPlace 640 310)

end Interval

/-- How digits become text. -/
structure RealText where
  /-- From this exponent of the first digit on, numbers are written positionally. -/
  minPositional : Int
  /-- From this exponent on, they are not. -/
  maxPositional : Int
  /-- The fewest digits of a written exponent. -/
  exponentDigits : Nat
  /-- The text of infinity. -/
  infinity : String
  /-- The text of what is no number. -/
  nan : String

/-- Operands are written positionally from 0.0001 up to 10^16, and an exponent has two digits. -/
def operandText : RealText := ⟨-4, 16, 2, "inf", "nan"⟩

/-- Digits with a decimal point behind the first `whole` of them, both sides non-empty. -/
def positional (ds : List Char) (exponent : Int) : List Char :=
  if exponent < 0 then '0' :: '.' :: (List.replicate (-exponent - 1).toNat '0' ++ ds)
  else
    let whole := exponent.toNat + 1
    let padded := ds ++ List.replicate (whole - ds.length) '0'
    let tail := padded.drop whole
    padded.take whole ++ '.' :: (if tail.isEmpty then ['0'] else tail)

/-- Digits with a decimal point behind the first and an exponent. -/
def scientific (style : RealText) (ds : List Char) (exponent : Int) : List Char :=
  let shown := Nat.toDigits 10 exponent.natAbs
  let point := match ds with
    | first :: second :: rest => first :: '.' :: second :: rest
    | short => short
  point ++ 'e' :: (if exponent < 0 then '-' else '+') ::
    (List.replicate (style.exponentDigits - shown.length) '0' ++ shown)

/-- The digits of a number without the zeros at its end, and how many those are. -/
def stripZeros (ds : List Char) : List Char := (ds.reverse.dropWhile (· = '0')).reverse

/-- The text of a positive number. -/
def magnitudeText (style : RealText) (f : Format) (significand : Nat) (exponent : Int) : String :=
  let (n, place) := (Interval.ofMagnitude f significand exponent).shortest
  let all := Nat.toDigits 10 n
  let first := place + all.length - 1
  let ds := stripZeros all
  String.ofList <|
    if style.minPositional ≤ first && first < style.maxPositional then positional ds first
    else scientific style ds first

/-- The text of a number of a format. -/
def text (style : RealText) (f : Format) (bits : Nat) : String :=
  match f.decode bits with
  | .nan _ _ => style.nan
  | .infinite negative => (if negative then "-" else "") ++ style.infinity
  | .finite negative significand exponent =>
    (if negative then "-" else "") ++
      if significand = 0 then "0.0" else magnitudeText style f significand exponent

end CilRestore.Binary
