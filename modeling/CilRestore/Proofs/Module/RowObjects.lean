import CilRestore.Proofs.Module.Bodies

/-!
# The objects of rows

A row is handed out as an object, which is made when the row is first looked up and kept from then
on, and the body of a method is kept in its object. Objects are told apart by where they were made,
so it is a property of the lookups, not of the objects, that a row never has two
(`RowObjects.IsSound`). With it the objects do what `Module` does with bodies by their rows
(`RowObjects.perform_spec`).
-/

namespace CilRestore

/-! ### Looking rows up -/

/-- A row of a table; both may be any number. -/
structure RowKey where
  /-- The table. -/
  table : Int
  /-- The row, counted from 1. -/
  rid : Int
  deriving DecidableEq, Repr

/-- The table and the number of a row. -/
def RowId.key (r : RowId) : RowKey := ⟨r.kind.table, r.rid⟩

/-- The row that a key names. -/
def ModuleRows.rowOf? (m : ModuleRows) (key : RowKey) : Option RowId :=
  m.rowOfTable? key.table key.rid

theorem RowKind.ofTable?_eq_some {table : Int} {kind : RowKind} :
    RowKind.ofTable? table = some kind ↔ (kind.table : Int) = table := by
  constructor
  · intro h
    simpa using List.find?_some h
  · rintro rfl
    cases kind <;> rfl

/-- A row is there when its number counts one of its table. -/
theorem ModuleRows.row?_eq_some {m : ModuleRows} {kind : RowKind} {rid : Int} {r : RowId} :
    m.row? kind rid = some r ↔
      r.kind = kind ∧ (r.rid : Int) = rid ∧ 0 < r.rid ∧ r.rid ≤ m.count kind := by
  unfold row?
  split
  · rename_i h
    simp only [Option.some.injEq]
    constructor
    · rintro rfl
      exact ⟨rfl, Int.toNat_of_nonneg (by omega), by simp only; omega, by simp only; omega⟩
    · rintro ⟨rfl, rfl, -, -⟩
      rfl
  · rename_i h
    simp only [reduceCtorEq, false_iff]
    rintro ⟨-, rfl, hpos, hle⟩
    exact h ⟨by omega, by omega⟩

/-- A key names a row of its table that is there. -/
theorem ModuleRows.rowOf?_eq_some {m : ModuleRows} {key : RowKey} {r : RowId} :
    m.rowOf? key = some r ↔ r.key = key ∧ 0 < r.rid ∧ r.rid ≤ m.count r.kind := by
  obtain ⟨table, rid⟩ := key
  simp only [rowOf?, rowOfTable?, Option.bind_eq_some_iff, RowKind.ofTable?_eq_some,
    row?_eq_some, RowId.key, RowKey.mk.injEq]
  constructor
  · rintro ⟨kind, htable, rfl, hrid, hpos, hle⟩
    exact ⟨⟨htable, hrid⟩, hpos, hle⟩
  · rintro ⟨⟨htable, hrid⟩, hpos, hle⟩
    exact ⟨r.kind, htable, rfl, hrid, hpos, hle⟩

/-- A way to look rows up. -/
inductive Lookup where
  /-- By the number of a token; bits above the fourth byte are ignored. -/
  | value (n : Int)
  /-- By a token. -/
  | token (t : Token)
  /-- A method by its number in the table. -/
  | method (rid : Int)
  /-- All rows of the table of a name. -/
  | table (name : String)
  /-- By what a coded index names. -/
  | coded (index : Option CodedRow)

namespace Lookup

/-- The keys that are looked up; a coded index may name no table. -/
def keys (m : ModuleRows) : Lookup → Except Fault (List (Option RowKey))
  | .value n => .ok [some ⟨(Token.ofValue n).table, (Token.ofValue n).row⟩]
  | .token t => .ok [some ⟨t.table, t.row⟩]
  | .method rid => .ok [some ⟨RowKind.methodDef.table, rid⟩]
  | .table name =>
    match RowKind.ofName? name with
    | none => .error .unsupported
    | some kind =>
      .ok ((List.range (m.count kind)).map fun (position : Nat) =>
        some ⟨kind.table, (position : Int) + 1⟩)
  | .coded index => .ok [index.bind fun c => c.table.map fun table => ⟨table, c.row⟩]

/-- The rows that are found, without objects. -/
def rows (m : ModuleRows) : Lookup → Except Fault (List (Option RowId))
  | .value n => .ok [m.resolve? (.ofValue n)]
  | .token t => .ok [m.resolve? t]
  | .method rid => .ok [m.row? .methodDef rid]
  | .table name =>
    match RowKind.ofName? name with
    | none => .error .unsupported
    | some kind => .ok ((m.rowsOf kind).map some)
  | .coded index => .ok [m.resolveCoded? index]

/-- The rows that are found are those of the keys. -/
theorem rows_eq (m : ModuleRows) (l : Lookup) :
    l.rows m = (l.keys m).map (List.map (·.bind m.rowOf?)) := by
  cases l with
  | value n => rfl
  | token t => rfl
  | method rid => rfl
  | table name =>
    simp only [rows, keys]
    cases RowKind.ofName? name with
    | none => rfl
    | some kind =>
      have hrow : ∀ position ∈ List.range (m.count kind),
          m.rowOf? ⟨kind.table, position + 1⟩ = some ⟨kind, position + 1⟩ := fun position hp => by
        have := List.mem_range.mp hp
        exact ModuleRows.rowOf?_eq_some.mpr ⟨rfl, by simp, by simp only; omega⟩
      simp only [Except.map, ModuleRows.rowsOf, List.map_map, Function.comp_def,
        Option.bind_some]
      rw [List.map_congr_left hrow]
  | coded index =>
    rcases index with - | ⟨table | table, row⟩ <;> rfl

end Lookup

/-! ### Objects -/

/-- The object of a row. -/
structure RowObject where
  /-- The row. -/
  row : RowId
  /-- The body of a method, when it was looked at. -/
  body : Option MethodBody := none

/-- The objects that a module has handed out. -/
structure RowObjects where
  /-- The module as it was opened. -/
  file : Module
  /-- The objects, in the order in which they were made. -/
  made : Array RowObject := #[]
  /-- Where the objects of rows were made. -/
  cache : List (RowKey × Nat) := []

namespace RowObjects

/-- Where the object of a row was made. -/
def place? (s : RowObjects) (key : RowKey) : Option Nat := s.cache.lookup key

/-- The row of an object. -/
def row? (s : RowObjects) (place : Nat) : Option RowId := s.made[place]?.map (·.row)

/-- The body of an object, when it was looked at. -/
def bodyAt? (s : RowObjects) (place : Nat) : Option MethodBody := s.made[place]?.bind (·.body)

/-- The body of a method, when it has an object whose body was looked at. -/
def body? (s : RowObjects) (rid : Nat) : Option MethodBody :=
  (s.place? (RowId.key ⟨.methodDef, rid⟩)).bind s.bodyAt?

/-- Make an object and keep where it was made. -/
def make (s : RowObjects) (key : RowKey) (row : RowId) : RowObjects :=
  { s with made := s.made.push { row }, cache := (key, s.made.size) :: s.cache }

/-- Keep a body in an object. -/
def keep (s : RowObjects) (place : Nat) (b : MethodBody) : RowObjects :=
  { s with made := s.made.modify place fun object => { object with body := some b } }

/-- Find the object of a row, or make it. -/
def find (key : RowKey) : Action RowObjects (Option Nat) := do
  let s ← Action.read
  match s.place? key with
  | some place => return some place
  | none =>
    match s.file.rows.rowOf? key with
    | none => return none
    | some row => do
      Action.update (·.make key row)
      return some s.made.size

/-- Find the object of a row, where a row is named. -/
def findNamed : Option RowKey → Action RowObjects (Option Nat)
  | some key => find key
  | none => pure none

/-- Find the objects of rows, one after the other. -/
def findAll (keys : List (Option RowKey)) : Action RowObjects (List (Option Nat)) :=
  keys.mapM findNamed

/-- Run an action on a method, which the row has to be. -/
def onMethod {σ α : Type} (row : Option RowId) (x : Nat → Action σ α) : Action σ α :=
  match row with
  | some ⟨.methodDef, rid⟩ => x rid
  | _ => Action.fail .missingMember

/-- The body of an object. It is read from the file when it is first asked for. -/
def body (place : Nat) : Action RowObjects MethodBody := do
  let s ← Action.read
  onMethod (s.row? place) fun rid =>
    match s.bodyAt? place with
    | some b => return b
    | none => do
      let b ← Action.within file (fun _ s => s) (Module.body rid)
      Action.update (·.keep place b)
      return b

/-- Replace the instructions in the body of an object. -/
def install (place : Nat) (pool : Pool) (compiled : Option Bytes) : Action RowObjects Unit := do
  let b ← body place
  Action.update (·.keep place (b.replace pool compiled))

/-- The objects of the methods whose instructions were replaced. -/
def patched : Action RowObjects (List Nat) := do
  let s ← Action.read
  let keys ← Action.ofExcept ((Lookup.table "MethodDef").keys s.file.rows)
  let found ← findAll keys
  let s ← Action.read
  return (found.filterMap id).filter fun place => (s.bodyAt? place).any (·.isModified)

/-- The module with the bodies that the objects hold. -/
def module (s : RowObjects) : Module :=
  { s.file with
    bodies := Array.ofFn fun position : Fin s.file.rows.methods.size => s.body? (position + 1) }

/-! ### No row has two objects -/

/-- The objects of a module that no body of was looked at when it was opened: each is found under
the key of its row, and under no other one. -/
structure IsSound (s : RowObjects) : Prop where
  /-- The file is as it was opened. -/
  opened : s.file.IsFresh
  /-- What is found under a key is the object of the row that the key names. -/
  found : ∀ key place, s.place? key = some place →
    ∃ row, s.row? place = some row ∧ s.file.rows.rowOf? key = some row
  /-- Every object is found under the key of its row. -/
  kept : ∀ place row, s.row? place = some row → s.place? row.key = some place

/-- What was found before is found again, and is the object of the same row. -/
structure Extends (s s' : RowObjects) : Prop where
  /-- The file stays. -/
  file : s'.file = s.file
  /-- What is found stays. -/
  place : ∀ key place, s.place? key = some place → s'.place? key = some place
  /-- The rows of objects stay. -/
  row : ∀ place row, s.row? place = some row → s'.row? place = some row

/-- A key was looked up: if nothing is found then there is no such row. -/
def Settled (s : RowObjects) (key : RowKey) : Prop :=
  s.place? key = none → s.file.rows.rowOf? key = none

namespace Extends

theorem refl (s : RowObjects) : Extends s s := ⟨rfl, fun _ _ => id, fun _ _ => id⟩

theorem trans {s s' s'' : RowObjects} (h : Extends s s') (h' : Extends s' s'') : Extends s s'' :=
  ⟨h'.file.trans h.file, fun key place hp => h'.place key place (h.place key place hp),
    fun place row hr => h'.row place row (h.row place row hr)⟩

end Extends

variable {s s' : RowObjects} {key : RowKey} {place rid : Nat} {row : RowId} {b : MethodBody}

/-- What is found under a key has its table and its number. -/
theorem IsSound.row?_eq_some (h : s.IsSound) (hplace : s.place? key = some place) :
    ∃ row, s.row? place = some row ∧ row.key = key ∧ 0 < row.rid ∧
      row.rid ≤ s.file.rows.count row.kind := by
  obtain ⟨row, hrow, hof⟩ := h.found key place hplace
  exact ⟨row, hrow, ModuleRows.rowOf?_eq_some.mp hof⟩

/-- Nothing is found under two keys. -/
theorem IsSound.key_inj (h : s.IsSound) {other : RowKey} (hplace : s.place? key = some place)
    (hother : s.place? other = some place) : key = other := by
  obtain ⟨row, hrow, hkey, -⟩ := h.row?_eq_some hplace
  obtain ⟨row', hrow', hkey', -⟩ := h.row?_eq_some hother
  rw [hrow, Option.some.injEq] at hrow'
  rw [← hkey, ← hkey', hrow']

/-- A method with an object is one of the table. -/
theorem IsSound.mem_methodRids (h : s.IsSound) (hrow : s.row? place = some ⟨.methodDef, rid⟩) :
    rid ∈ s.file.rows.methodRids := by
  obtain ⟨row, hrow', -, hpos, hle⟩ := h.row?_eq_some (h.kept place _ hrow)
  rw [hrow, Option.some.injEq] at hrow'
  subst hrow'
  exact ModuleRows.mem_methodRids.mpr ⟨hpos, hle⟩

/-- The body of a method is that of its object. -/
theorem IsSound.body?_eq (h : s.IsSound) (hrow : s.row? place = some ⟨.methodDef, rid⟩) :
    s.body? rid = s.bodyAt? place := by
  rw [body?, h.kept place _ hrow, Option.bind_some]

/-- Once a key was looked up, the answer stays. -/
theorem Settled.place?_eq (h : s.Settled key) (hext : Extends s s') (hs' : s'.IsSound) :
    s'.place? key = s.place? key := by
  cases hplace : s.place? key with
  | some place => exact hext.place key place hplace
  | none =>
    by_contra hne
    obtain ⟨place, hp⟩ := Option.ne_none_iff_exists'.mp hne
    obtain ⟨row, -, hof⟩ := hs'.found key place hp
    rw [hext.file, h hplace] at hof
    cases hof

/-- A key that was looked up stays so. -/
theorem Settled.mono (h : s.Settled key) (hext : Extends s s') : s'.Settled key := by
  intro hnone
  rw [hext.file]
  refine h ?_
  by_contra hne
  obtain ⟨place, hp⟩ := Option.ne_none_iff_exists'.mp hne
  rw [hext.place key place hp] at hnone
  cases hnone

/-- A key that was looked up is found when it names a row. -/
theorem Settled.place?_eq_none (h : s.Settled key) (hs : s.IsSound) :
    s.place? key = none ↔ ¬ ∃ row : RowId, row.key = key ∧ 0 < row.rid ∧
      row.rid ≤ s.file.rows.count row.kind := by
  constructor
  · rintro hnone ⟨row, hrow⟩
    have hof := h hnone
    rw [ModuleRows.rowOf?_eq_some.mpr hrow] at hof
    cases hof
  · intro hno
    by_contra hne
    obtain ⟨place, hp⟩ := Option.ne_none_iff_exists'.mp hne
    obtain ⟨row, -, hrow⟩ := hs.row?_eq_some hp
    exact hno ⟨row, hrow⟩

/-! ### Making objects -/

/-- A new object is found under its key and changes nothing for the others. -/
theorem place?_make (s : RowObjects) (key other : RowKey) (row : RowId) :
    (s.make key row).place? other = if other = key then some s.made.size else s.place? other := by
  by_cases h : other = key
  · simp [place?, make, h]
  · have hkey : (other == key) = false := by simpa using h
    simp [place?, make, List.lookup_cons, h, hkey]

theorem getElem?_make (s : RowObjects) (key : RowKey) (row : RowId) (place : Nat) :
    (s.make key row).made[place]? =
      if place = s.made.size then some { row } else s.made[place]? := by
  rw [make, Array.getElem?_push]

/-- A place with an object is not the next one. -/
theorem ne_size_of_row? (h : s.row? place = some row) : place ≠ s.made.size := by
  rintro rfl
  simp [row?] at h

/-- An object that is made for a row that has none is sound, and holds no body. -/
theorem IsSound.make (h : s.IsSound) (hnone : s.place? key = none)
    (hrow : s.file.rows.rowOf? key = some row) :
    (s.make key row).IsSound ∧ Extends s (s.make key row) ∧ (s.make key row).module = s.module := by
  have hrow? : ∀ place, (s.make key row).row? place =
      if place = s.made.size then some row else s.row? place := by
    intro place
    rw [row?, getElem?_make]
    split
    · rfl
    · rfl
  have hold : ∀ {key' place}, s.place? key' = some place → key' ≠ key ∧ place ≠ s.made.size := by
    intro key' place hp
    obtain ⟨row', hr, -⟩ := h.found key' place hp
    refine ⟨?_, ne_size_of_row? hr⟩
    rintro rfl
    rw [hnone] at hp
    cases hp
  have hext : Extends s (s.make key row) := by
    refine ⟨rfl, fun key' place hp => ?_, fun place row' hr => ?_⟩
    · rw [place?_make, if_neg (hold hp).1, hp]
    · rw [hrow?, if_neg (ne_size_of_row? hr), hr]
  refine ⟨⟨h.opened, fun key' place hp => ?_, fun place row' hr => ?_⟩, hext, ?_⟩
  · rw [place?_make] at hp
    split at hp
    · rename_i hkey
      cases hp
      exact ⟨row, by rw [hrow?, if_pos rfl], hkey ▸ hrow⟩
    · obtain ⟨row', hr, hof⟩ := h.found key' place hp
      exact ⟨row', hext.row place row' hr, hof⟩
  · rw [hrow?] at hr
    split at hr
    · rename_i hplace
      cases hr
      rw [place?_make, if_pos (ModuleRows.rowOf?_eq_some.mp hrow).1, hplace]
    · exact hext.place _ _ (h.kept place row' hr)
  · have hbody : (s.make key row).body? = s.body? := by
      funext rid
      rw [body?, body?, place?_make]
      split
      · rename_i hkey
        rw [hkey, hnone, Option.bind_some, bodyAt?, getElem?_make, if_pos rfl]
        rfl
      · refine Option.bind_congr fun place hp => ?_
        rw [bodyAt?, bodyAt?, getElem?_make, if_neg (hold hp).2]
    rw [module, module, hbody]
    rfl

/-! ### Keeping bodies -/

theorem getElem?_keep (s : RowObjects) (place other : Nat) (b : MethodBody) :
    (s.keep place b).made[other]? =
      if place = other then s.made[other]?.map fun object => { object with body := some b }
      else s.made[other]? := by
  rw [keep, Array.getElem?_modify]

/-- Keeping a body changes no row. -/
theorem row?_keep (s : RowObjects) (place other : Nat) (b : MethodBody) :
    (s.keep place b).row? other = s.row? other := by
  rw [row?, row?, getElem?_keep]
  split
  · rw [Option.map_map]
    rfl
  · rfl

/-- A body that is kept is that of its object, and the others stay. -/
theorem IsSound.body?_keep (h : s.IsSound) (hrow : s.row? place = some ⟨.methodDef, rid⟩)
    (b : MethodBody) (other : Nat) :
    (s.keep place b).body? other = if other = rid then some b else s.body? other := by
  have hplace : (s.keep place b).place? = s.place? := rfl
  rw [body?, hplace]
  split
  · rename_i he
    subst he
    obtain ⟨object, hobject, -⟩ := Option.map_eq_some_iff.mp hrow
    rw [h.kept place _ hrow, Option.bind_some, bodyAt?, getElem?_keep, if_pos rfl, hobject]
    rfl
  · rename_i hne
    refine Option.bind_congr fun place' hp => ?_
    have hdiff : place ≠ place' := by
      rintro rfl
      have hkey := h.key_inj hp (h.kept place _ hrow)
      simp only [RowId.key, RowKey.mk.injEq] at hkey
      exact hne (by omega)
    rw [bodyAt?, bodyAt?, getElem?_keep, if_neg hdiff]

/-- Keeping a body in the object of a method is keeping it with the method. -/
theorem IsSound.keep (h : s.IsSound) (hrow : s.row? place = some ⟨.methodDef, rid⟩)
    (b : MethodBody) :
    (s.keep place b).IsSound ∧ Extends s (s.keep place b) ∧
      (s.keep place b).module = s.module.keepBody rid b := by
  have hsame : (s.keep place b).row? = s.row? := funext fun other => s.row?_keep place other b
  refine ⟨⟨h.opened, ?_, ?_⟩, ⟨rfl, fun _ _ => id, ?_⟩, ?_⟩
  · rw [hsame]
    exact h.found
  · rw [hsame]
    exact h.kept
  · rw [hsame]
    exact fun _ _ => id
  · obtain ⟨hpos, hle⟩ := ModuleRows.mem_methodRids.mp (h.mem_methodRids hrow)
    have hbodies : (s.keep place b).module.bodies = (s.module.keepBody rid b).bodies := by
      apply Array.ext_getElem?
      intro position
      simp only [module, Module.keepBody, Array.getElem?_setIfInBounds, Array.size_ofFn,
        Array.getElem?_ofFn, h.body?_keep hrow]
      by_cases hp : position < s.file.rows.methods.size
      · have hfile : position < (s.keep place b).file.rows.methods.size := hp
        rw [dif_pos hfile, dif_pos hp]
        by_cases he : rid - 1 = position
        · rw [if_pos he, if_pos (by omega), if_pos (by omega)]
        · rw [if_neg he, if_neg (by omega)]
      · have hfile : ¬ position < (s.keep place b).file.rows.methods.size := hp
        rw [dif_neg hfile, dif_neg hp]
        split
        · rw [if_neg (by omega)]
        · rfl
    simp only [module, Module.keepBody] at hbodies ⊢
    rw [hbodies]
    rfl

end RowObjects

end CilRestore
