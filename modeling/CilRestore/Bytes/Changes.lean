import CilRestore.Bytes.Basic

/-!
# Changes between two files

The runs of bytes in which a new file differs from an old one, each as long as can be. What lies
behind the end of the old file counts as different. `changes_self` says that a file does not differ
from itself.
-/

namespace CilRestore.Bytes

/-- The runs that differ from a place on; `run` is the one that goes on here, its bytes last first,
and `done` holds the ones before, last first. -/
def changesFrom : Bytes → Bytes → Nat → Option (Nat × Bytes) → List (Nat × Bytes) →
    List (Nat × Bytes)
  | _, [], _, run, done => (run.toList ++ done).reverse
  | old, b :: rest, place, run, done =>
    if old.head? = some b then
      changesFrom old.tail rest (place + 1) none (run.toList ++ done)
    else
      let run :=
        match run with
        | some (start, bs) => (start, b :: bs)
        | none => (place, [b])
      changesFrom old.tail rest (place + 1) (some run) done

/-- The runs of bytes of a new file that differ from an old one, each with its offset. -/
def changes (old new : Bytes) : List (Nat × Bytes) :=
  (changesFrom old new 0 none []).map fun (start, bs) => (start, bs.reverse)

/-- A file does not differ from itself. -/
theorem changes_self (bs : Bytes) : changes bs bs = [] := by
  have h : ∀ (bs : Bytes) (place : Nat), changesFrom bs bs place none [] = [] := by
    intro bs
    induction bs with
    | nil => intro place; simp [changesFrom]
    | cons b rest ih => intro place; simp [changesFrom, ih]
  simp [changes, h]

end CilRestore.Bytes
