import CilRestore.Text.Quoted
import CilRestore.Text.Unicode

/-!
# Paths

A path is given as a text. In such a text surrogates may stand on their own, since names that are no
text have to be given as well: the system knows names by their bytes, and a byte that belongs to no
character is given as a surrogate. Not every text is the path of something (`GivenPath.bytes?`).

An absolute path has a plain form: no empty parts, no `.` and no `..`, and no slash at the end. Two
slashes in front are kept, since they may mean something else than one.
-/

namespace CilRestore

/-- A unit of a path. -/
inductive PathUnit where
  /-- A character. -/
  | char (c : Char)
  /-- A surrogate on its own, counted from the first one. -/
  | surrogate (n : Fin 0x800)
  deriving DecidableEq, Repr

namespace PathUnit

/-- The bytes of a unit in a name. A zero byte ends names, and only the surrogates that stand for a
byte have one. -/
def bytes? : PathUnit → Option Bytes
  | char c => if c = '\x00' then none else some (String.utf8EncodeChar c)
  | surrogate n =>
    if 0x480 ≤ n.val ∧ n.val < 0x500 then some [UInt8.ofNat (n.val - 0x400)] else none

/-- The character of a unit, replaced if it has none. -/
def shown : PathUnit → Char
  | char c => c
  | surrogate _ => Text.replacement

/-- A unit as it stands between quotes. -/
def escaped (quote : Char) : PathUnit → List Char
  | char c => Text.escape quote c
  | surrogate n => Text.numericEscape (0xD800 + n.val)

end PathUnit

/-- A path as it is given. -/
abbrev GivenPath := List PathUnit

namespace GivenPath

/-- The path of a text of characters. -/
def ofString (s : String) : GivenPath := s.toList.map .char

/-- The bytes by which the system knows a path; none where it cannot be told of it. -/
def bytes? (path : GivenPath) : Option Bytes :=
  ((path.map PathUnit.bytes?).mapM id).map List.flatten

/-- The parts of a path, each by its bytes. -/
def parts (path : GivenPath) : List (Option Bytes) := (path.splitOn (.char '/')).map bytes?

/-- Whether a path starts from the root. -/
def isAbsolute (path : GivenPath) : Bool := path.head? = some (.char '/')

/-- A path as text. -/
def shown (path : GivenPath) : String := String.ofList (path.map PathUnit.shown)

/-- A path between quotes. -/
def quoted (path : GivenPath) : String :=
  let quote := Text.quoteFor (path.map PathUnit.shown)
  String.ofList (quote :: path.flatMap (PathUnit.escaped quote) ++ [quote])

end GivenPath

namespace Path

/-- The parts of a path without those that lead nowhere: the empty one and the one for the folder
itself. `up` is the part for the folder above, and `done` holds the ones before, last first. Nothing
lies above the root. -/
def plainParts {β : Type} [DecidableEq β] (empty here up : β) : List β → List β → List β
  | [], done => done.reverse
  | part :: rest, done =>
    if part = empty || part = here then plainParts empty here up rest done
    else if part = up then plainParts empty here up rest done.tail
    else plainParts empty here up rest (part :: done)

/-- How many slashes the plain form of a path begins with. -/
def leadingSlashes : List Char → Nat
  | '/' :: '/' :: '/' :: _ => 1
  | '/' :: '/' :: _ => 2
  | _ => 1

/-- The plain form of an absolute path. -/
def plain (path : String) : String :=
  let cs := path.toList
  String.ofList (List.replicate (leadingSlashes cs) '/' ++
    List.intercalate ['/'] (plainParts [] ['.'] ['.', '.'] (cs.splitOn '/') []))

end Path

end CilRestore
