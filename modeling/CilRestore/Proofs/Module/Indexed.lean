import CilRestore.Proofs.Restorer.Resolution

/-!
# The index of methods

The index keeps the rows of the table of methods by RVA, and grows row by row. Here it is compared
with a scan of the whole table (`MethodTableRow.scan`), which has no index: both find the same rows
in the same order, and so an RVA is resolved as the rows that have it say
(`MethodIndex.ofRows_scan`).
-/

namespace CilRestore

namespace MethodTableRow

/-- The rows with an RVA, in table order: what a scan of the table finds. -/
def scan (rows : List MethodTableRow) (rva : Int) : List MethodTableRow :=
  rows.filter fun row => row.rva = rva

/-- A token names a row: it is of the table of methods, and of the row behind the position, which
counts from 0. -/
structure IsNamedBy (row : MethodTableRow) (t : Token) : Prop where
  /-- The table is that of the methods. -/
  table : t.table = RowKind.methodDef.table
  /-- The rows of tokens are counted from 1. -/
  row : (t.row : Int) = row.position + 1

/-- A row of a table of methods with fewer rows than tokens can number. -/
structure IsMethod (row : MethodTableRow) : Prop where
  /-- The row is of the table of methods. -/
  table : row.table = RowKind.methodDef.table
  /-- Positions start at 0. -/
  nonneg : 0 ≤ row.position
  /-- There are fewer rows than tokens can number. -/
  numbered : row.position + 1 < 2 ^ (24 : Nat)

variable {row : MethodTableRow}

/-- A row of the table of methods has one token. -/
theorem IsMethod.token_eq_ok (h : row.IsMethod) {t : Token} :
    row.token = .ok t ↔ row.IsNamedBy t := by
  have hnonneg := h.nonneg
  have hnumbered := h.numbered
  unfold token Token.ofPosition Token.make
  rw [dif_pos ⟨by omega, hnumbered⟩, Except.ok.injEq]
  constructor
  · rintro rfl
    exact ⟨h.table, Int.toNat_of_nonneg (by omega)⟩
  · rintro ⟨htable, hrow⟩
    obtain ⟨table, place, hlt⟩ := t
    simp only at htable hrow
    simp only [Token.mk.injEq, h.table]
    exact ⟨htable.symm, by omega⟩

theorem IsMethod.exists_token (h : row.IsMethod) : ∃ t, row.token = .ok t := by
  have hnonneg := h.nonneg
  unfold token Token.ofPosition Token.make
  rw [dif_pos ⟨by omega, h.numbered⟩]
  exact ⟨_, rfl⟩

end MethodTableRow

namespace MethodIndex

/-- Putting a row into the index adds that row and no other. -/
theorem flatMap_insert (row : MethodTableRow) (entries : List (Int × List MethodTableRow)) :
    ((insert row entries).flatMap (·.2)).Perm (row :: entries.flatMap (·.2)) := by
  induction entries with
  | nil => simp [insert]
  | cons entry entries ih =>
    obtain ⟨key, rows⟩ := entry
    rw [insert]
    split
    · rw [List.flatMap_cons, List.flatMap_cons, List.append_assoc]
      exact List.perm_middle
    · rw [List.flatMap_cons, List.flatMap_cons]
      exact (ih.append_left rows).trans List.perm_middle

/-- Adding a row adds it once if it has a body. -/
theorem flatMap_add (entries : List (Int × List MethodTableRow)) (row : MethodTableRow) :
    ((add entries row).flatMap (·.2)).Perm
      (entries.flatMap (·.2) ++ [row].filter fun row => row.rva ≠ 0) := by
  rw [add]
  by_cases hz : row.rva = 0
  · simp [hz]
  · rw [if_neg hz, List.filter_cons_of_pos (by simpa using hz), List.filter_nil]
    exact (flatMap_insert row entries).trans (List.perm_append_singleton _ _).symm

/-- Adding rows adds each one with a body once. -/
theorem flatMap_foldl_add (rows : List MethodTableRow)
    (entries : List (Int × List MethodTableRow)) :
    ((rows.foldl add entries).flatMap (·.2)).Perm
      (entries.flatMap (·.2) ++ rows.filter fun row => row.rva ≠ 0) := by
  induction rows generalizing entries with
  | nil => simp
  | cons row rows ih =>
    refine (ih (add entries row)).trans ?_
    refine ((flatMap_add entries row).append_right _).trans (.of_eq ?_)
    rw [List.append_assoc, ← List.filter_append, List.singleton_append]

/-- The index holds each row with a body once. -/
theorem flatMap_ofRows (rows : List MethodTableRow) :
    ((ofRows rows).entries.flatMap (·.2)).Perm (rows.filter fun row => row.rva ≠ 0) :=
  flatMap_foldl_add rows []

/-- What the index finds is what a scan finds, but for the RVA 0. -/
theorem find_ofRows_scan (rows : List MethodTableRow) (rva : Int) :
    (ofRows rows).find rva = if rva = 0 then [] else MethodTableRow.scan rows rva := by
  rw [find_ofRows]
  split
  · rename_i hz
    simp [hz]
  · rename_i hz
    simp [MethodTableRow.scan, hz]

/-- An RVA has no row, one or several, and so it is resolved. -/
theorem resolve_cases {rows : List MethodTableRow} (hrows : ∀ row ∈ rows, row.IsMethod)
    (lookUp : Token → Option RowId) (rva : Int) :
    (rva ≤ 0 ∨ MethodTableRow.scan rows rva = []) ∧
      (ofRows rows).resolve lookUp rva = .ok none ∨
    (0 < rva ∧ ∃ row t, MethodTableRow.scan rows rva = [row] ∧ (∀ t', row.IsNamedBy t' ↔ t' = t) ∧
      (ofRows rows).resolve lookUp rva =
        .ok ((lookUp t).filter fun found => found.kind = .methodDef)) ∨
    (0 < rva ∧ 1 < (MethodTableRow.scan rows rva).length ∧
      (ofRows rows).resolve lookUp rva =
        .error (.ambiguousMethod rva (MethodTableRow.scan rows rva).length)) := by
  unfold resolve
  by_cases hneg : rva < 0
  · exact Or.inl ⟨Or.inl (by omega), by rw [if_pos hneg]⟩
  rw [if_neg hneg, find_ofRows_scan]
  by_cases hz : rva = 0
  · exact Or.inl ⟨Or.inl (by omega), by rw [if_pos hz]⟩
  rw [if_neg hz]
  have hpos : 0 < rva := by omega
  match hscan : MethodTableRow.scan rows rva with
  | [] => exact Or.inl ⟨Or.inr rfl, rfl⟩
  | [row] =>
    have hrow : row ∈ rows :=
      (List.mem_filter.mp (show row ∈ MethodTableRow.scan rows rva by simp [hscan])).1
    obtain ⟨t, ht⟩ := (hrows row hrow).exists_token
    refine Or.inr (Or.inl ⟨hpos, row, t, rfl, fun t' => ?_, ?_⟩)
    · rw [← (hrows row hrow).token_eq_ok, ht, Except.ok.injEq]
      exact eq_comm
    · simp only [ht, Sequence.ok_bind]
      cases lookUp t with
      | none => rfl
      | some found =>
        by_cases hk : found.kind = .methodDef <;>
          simp [hk, pure, Except.pure, Option.filter_some]
  | _ :: _ :: _ => exact Or.inr (Or.inr ⟨hpos, by simp, rfl⟩)

section resolve

variable {rows : List MethodTableRow} {lookUp : Token → Option RowId} {rva : Int}

/-- An RVA resolves to the one row that a scan finds for it, if that is a method. -/
theorem resolve_eq_some (hrows : ∀ row ∈ rows, row.IsMethod) {found : RowId} :
    (ofRows rows).resolve lookUp rva = .ok (some found) ↔
      0 < rva ∧ ∃ row t, MethodTableRow.scan rows rva = [row] ∧ row.IsNamedBy t ∧
        lookUp t = some found ∧ found.kind = .methodDef := by
  obtain ⟨hnone, hres⟩ | ⟨hpos, row, t, hscan, htoken, hres⟩ | ⟨-, hmany, hres⟩ :=
    resolve_cases hrows lookUp rva
  · rw [hres]
    constructor
    · rintro ⟨⟩
    · rintro ⟨hpos, row, t, hscan, -⟩
      rcases hnone with h | h
      · omega
      · simp [h] at hscan
  · rw [hres]
    simp [hscan, htoken, hpos]
  · rw [hres]
    constructor
    · rintro ⟨⟩
    · rintro ⟨-, row, t, hscan, -⟩
      simp [hscan] at hmany

/-- It is ambiguous when a scan finds several rows. -/
theorem resolve_eq_error (hrows : ∀ row ∈ rows, row.IsMethod) {e : Fault} :
    (ofRows rows).resolve lookUp rva = .error e ↔
      0 < rva ∧ 1 < (MethodTableRow.scan rows rva).length ∧
        e = .ambiguousMethod rva (MethodTableRow.scan rows rva).length := by
  obtain ⟨hnone, hres⟩ | ⟨-, row, t, hscan, -, hres⟩ | ⟨hpos, hmany, hres⟩ :=
    resolve_cases hrows lookUp rva
  · rw [hres]
    constructor
    · rintro ⟨⟩
    · rintro ⟨hpos, hmany, -⟩
      rcases hnone with h | h
      · omega
      · simp [h] at hmany
  · rw [hres]
    simp [hscan]
  · rw [hres]
    simp [hpos, hmany, eq_comm]

/-- It resolves to nothing when a scan finds none, or none that is a method. -/
theorem resolve_eq_none (hrows : ∀ row ∈ rows, row.IsMethod) :
    (ofRows rows).resolve lookUp rva = .ok none ↔
      rva ≤ 0 ∨ MethodTableRow.scan rows rva = [] ∨
        ∃ row t, MethodTableRow.scan rows rva = [row] ∧ row.IsNamedBy t ∧
          ∀ found, lookUp t = some found → found.kind ≠ .methodDef := by
  obtain ⟨hnone, hres⟩ | ⟨hpos, row, t, hscan, htoken, hres⟩ | ⟨hpos, hmany, hres⟩ :=
    resolve_cases hrows lookUp rva
  · rw [hres]
    rcases hnone with h | h <;> simp [h]
  · rw [hres]
    simp [hscan, htoken, Int.not_le.mpr hpos]
  · rw [hres]
    constructor
    · rintro ⟨⟩
    · rintro (h | h | ⟨row, t, hscan, -⟩)
      · omega
      · simp [h] at hmany
      · simp [hscan] at hmany

end resolve

/-- The index of methods answers as a scan of their rows does. It finds for an RVA the rows that
have it, in table order, and none for the RVA 0. An RVA is resolved to a method when it is
positive, exactly one row has it, and what the token of that row names is a method; when several
rows have it, it is ambiguous; and otherwise it is resolved to nothing. No row is lost and none is
held twice. -/
theorem ofRows_scan {rows : List MethodTableRow} (hrows : ∀ row ∈ rows, row.IsMethod)
    (lookUp : Token → Option RowId) :
    (∀ rva, (ofRows rows).find rva = if rva = 0 then [] else MethodTableRow.scan rows rva) ∧
    (∀ rva found, (ofRows rows).resolve lookUp rva = .ok (some found) ↔
      0 < rva ∧ ∃ row t, MethodTableRow.scan rows rva = [row] ∧ row.IsNamedBy t ∧
        lookUp t = some found ∧ found.kind = .methodDef) ∧
    (∀ rva e, (ofRows rows).resolve lookUp rva = .error e ↔
      0 < rva ∧ 1 < (MethodTableRow.scan rows rva).length ∧
        e = .ambiguousMethod rva (MethodTableRow.scan rows rva).length) ∧
    (∀ rva, (ofRows rows).resolve lookUp rva = .ok none ↔
      rva ≤ 0 ∨ MethodTableRow.scan rows rva = [] ∨
        ∃ row t, MethodTableRow.scan rows rva = [row] ∧ row.IsNamedBy t ∧
          ∀ found, lookUp t = some found → found.kind ≠ .methodDef) ∧
    ((ofRows rows).entries.flatMap (·.2)).Perm (rows.filter fun row => row.rva ≠ 0) := by
  exact ⟨find_ofRows_scan rows, fun _ _ => resolve_eq_some hrows,
    fun _ _ => resolve_eq_error hrows, fun _ => resolve_eq_none hrows, flatMap_ofRows rows⟩

end MethodIndex

/-- In a table of methods that tokens can number each row has a token. -/
theorem ModuleRows.isMethod_of_mem {m : ModuleRows} (hcount : m.methods.size < 2 ^ (24 : Nat)) :
    ∀ row ∈ m.methodTable, row.IsMethod := by
  intro row hrow
  obtain ⟨place, hplace, rfl⟩ := List.mem_map.mp hrow
  have hlt := List.mem_range.mp hplace
  exact ⟨rfl, Int.natCast_nonneg place, by simp only; omega⟩

namespace SharedRvas

/-- Five methods: one without a body, two that share one, one of its own, and one whose RVA is below
zero. -/
def rows : ModuleRows where
  methods := ([0, 0x2050, 0x2060, 0x2050, -5].map fun rva =>
    { rva := some rva, name := .absent, signature := none }).toArray

end SharedRvas

namespace MethodIndex

open SharedRvas

/-- Of the five methods only the one with an RVA of its own is resolved, and not through its RVA
where that is not positive. -/
theorem ofRows_scan_of_shared :
    rows.methods.size < 2 ^ (24 : Nat) ∧
    (ofRows rows.methodTable).find 0x2050 =
      [{ rva := 0x2050, position := 1 }, { rva := 0x2050, position := 3 }] ∧
    (ofRows rows.methodTable).find 0 = [] ∧
    (ofRows rows.methodTable).find (-5) = [{ rva := -5, position := 4 }] ∧
    (ofRows rows.methodTable).resolve rows.resolve? 0x2060 = .ok (some ⟨.methodDef, 3⟩) ∧
    (ofRows rows.methodTable).resolve rows.resolve? 0x2050 = .error (.ambiguousMethod 0x2050 2) ∧
    (ofRows rows.methodTable).resolve rows.resolve? 0 = .ok none ∧
    (ofRows rows.methodTable).resolve rows.resolve? (-5) = .ok none := by
  have hcount : rows.methods.size < 2 ^ (24 : Nat) := by decide
  obtain ⟨hfind, hsome, herror, hnone, -⟩ :=
    ofRows_scan (ModuleRows.isMethod_of_mem hcount) rows.resolve?
  refine ⟨hcount, ?_, ?_, ?_, ?_, ?_, ?_, ?_⟩
  · rw [hfind]
    decide
  · rw [hfind, if_pos rfl]
  · rw [hfind]
    decide
  · rw [hsome]
    exact ⟨by decide, { rva := 0x2060, position := 2 }, ⟨0x06, 3, by decide⟩, by decide,
      ⟨rfl, rfl⟩, by decide, rfl⟩
  · rw [herror]
    decide
  · exact (hnone 0).mpr (Or.inl (by decide))
  · exact (hnone (-5)).mpr (Or.inl (by decide))

end MethodIndex

end CilRestore
