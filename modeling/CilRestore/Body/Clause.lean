import CilRestore.Text.Hex

/-!
# Exception clauses

A clause guards a range of code offsets by a handler, which is another range. A filter clause names
the start of its filter where the others name a type.
-/

namespace CilRestore

/-- An exception clause. -/
structure Clause where
  /-- The kind of clause. -/
  flags : Int
  /-- Where the guarded range starts. -/
  tryOffset : Int
  /-- How long it is. -/
  tryLength : Int
  /-- Where the handler starts. -/
  handlerOffset : Int
  /-- How long it is. -/
  handlerLength : Int
  /-- The start of the filter in a filter clause, else the token of a type or 0. -/
  token : Int
  deriving DecidableEq, Repr

namespace Clause

/-- The kind of a clause with a filter. -/
def filter : Int := 1

/-- The kind of a clause whose handler always runs. -/
def always : Int := 2

/-- The kind of a clause whose handler runs on a fault only. -/
def fault : Int := 4

/-- The fields in their order. -/
def fields (c : Clause) : List Int :=
  [c.flags, c.tryOffset, c.tryLength, c.handlerOffset, c.handlerLength, c.token]

/-- The clause of six fields. -/
def ofFields? : List Int → Option Clause
  | [flags, tryOffset, tryLength, handlerOffset, handlerLength, token] =>
    some ⟨flags, tryOffset, tryLength, handlerOffset, handlerLength, token⟩
  | _ => none

/-- How many stack slots the runtime fills before the handler runs. -/
def handlerDepth (c : Clause) : Nat := if c.flags = always ∨ c.flags = fault then 0 else 1

/-- A clause as messages show it. -/
def describe (c : Clause) : String := "(" ++ ", ".intercalate (c.fields.map toString) ++ ")"

/-- The line printed for a clause that is dropped. -/
def droppedLine (c : Clause) : String :=
  "dropping exception clause " ++ c.describe ++ " that does not match the new code"

end Clause

end CilRestore
