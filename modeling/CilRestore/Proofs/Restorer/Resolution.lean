import CilRestore.Module.Basic
import CilRestore.Proofs.Code.Writing
import CilRestore.Proofs.Sequence

/-!
# Resolving addresses and tokens

An RVA that the index of methods resolves is the RVA of exactly one row, and the row is what the
index answers. A token that a module resolves is the token of the row it is resolved to.
-/

namespace CilRestore

namespace MethodIndex

/-- The rows that a list of entries has for an RVA. -/
def rowsAt (entries : List (Int × List MethodTableRow)) (rva : Int) : List MethodTableRow :=
  find ⟨entries⟩ rva

@[simp] theorem rowsAt_nil (rva : Int) : rowsAt [] rva = [] := rfl

/-- The first entry decides for its own RVA. -/
theorem rowsAt_cons (key rva : Int) (rows : List MethodTableRow)
    (entries : List (Int × List MethodTableRow)) :
    rowsAt ((key, rows) :: entries) rva = if key = rva then rows else rowsAt entries rva := by
  by_cases h : key = rva
  · simp [rowsAt, find, h]
  · simp [rowsAt, find, h]

/-- A row is put behind those of its RVA, and those of other RVAs stay. -/
theorem rowsAt_insert (row : MethodTableRow) (entries : List (Int × List MethodTableRow))
    (rva : Int) : rowsAt (insert row entries) rva =
      if row.rva = rva then rowsAt entries rva ++ [row] else rowsAt entries rva := by
  induction entries with
  | nil => rw [insert, rowsAt_cons, rowsAt_nil, List.nil_append]
  | cons entry entries ih =>
    obtain ⟨key, rows⟩ := entry
    rw [insert]
    by_cases hkey : key = row.rva
    · rw [if_pos hkey, rowsAt_cons, rowsAt_cons, hkey]
      by_cases hrva : row.rva = rva
      · rw [if_pos hrva, if_pos hrva, if_pos hrva]
      · rw [if_neg hrva, if_neg hrva, if_neg hrva]
    · rw [if_neg hkey, rowsAt_cons, rowsAt_cons, ih]
      by_cases hrva : key = rva
      · rw [if_pos hrva, if_pos hrva, if_neg (by omega)]
      · rw [if_neg hrva, if_neg hrva]

/-- A row with a body is added to those of its RVA, and one without is added nowhere. -/
theorem rowsAt_add (entries : List (Int × List MethodTableRow)) (row : MethodTableRow)
    (rva : Int) : rowsAt (add entries row) rva =
      rowsAt entries rva ++ [row].filter fun row => row.rva = rva ∧ rva ≠ 0 := by
  rw [add, List.filter_cons, List.filter_nil]
  by_cases hz : row.rva = 0
  · rw [if_pos hz, if_neg (by simp only [decide_eq_true_eq]; omega), List.append_nil]
  · rw [if_neg hz, rowsAt_insert]
    by_cases hrva : row.rva = rva
    · rw [if_pos hrva, if_pos (by simp only [decide_eq_true_eq]; omega)]
    · rw [if_neg hrva, if_neg (by simp only [decide_eq_true_eq]; omega), List.append_nil]

/-- Adding rows adds those of an RVA behind the ones that it has. -/
theorem rowsAt_foldl_add (rows : List MethodTableRow) (entries : List (Int × List MethodTableRow))
    (rva : Int) : rowsAt (rows.foldl add entries) rva =
      rowsAt entries rva ++ rows.filter fun row => row.rva = rva ∧ rva ≠ 0 := by
  induction rows generalizing entries with
  | nil => simp
  | cons row rows ih =>
    rw [List.foldl_cons, ih, rowsAt_add, List.append_assoc, ← List.filter_append,
      List.singleton_append]

/-- The index has for an RVA the rows of that RVA, in table order, and none for the RVA 0. -/
theorem find_ofRows (rows : List MethodTableRow) (rva : Int) :
    (ofRows rows).find rva = rows.filter fun row => row.rva = rva ∧ rva ≠ 0 :=
  rowsAt_foldl_add rows [] rva

end MethodIndex

namespace ModuleRows

variable {m : ModuleRows}

/-- The rows of the table of methods. -/
def methodRids (m : ModuleRows) : List Nat := (List.range m.methods.size).map (· + 1)

theorem mem_methodRids {rid : Nat} : rid ∈ m.methodRids ↔ 0 < rid ∧ rid ≤ m.methods.size := by
  simp only [methodRids, List.mem_map, List.mem_range]
  constructor
  · rintro ⟨place, hlt, rfl⟩
    omega
  · rintro ⟨hpos, hle⟩
    exact ⟨rid - 1, by omega, by omega⟩

theorem nodup_methodRids (m : ModuleRows) : m.methodRids.Nodup := by
  rw [methodRids, List.Nodup, List.pairwise_map]
  exact List.nodup_range.imp fun hne he => hne (Nat.succ.inj he)

/-- A row that a token is resolved to has the token. -/
theorem tokenValue_of_resolve? {t : Token} {r : RowId} (h : m.resolve? t = some r) :
    r.tokenValue = t.value := by
  obtain ⟨kind, hkind, hrow⟩ := Option.bind_eq_some_iff.mp h
  have htable : (kind.table : Int) = t.table := by simpa using List.find?_some hkind
  rw [row?] at hrow
  split at hrow
  · simp only [Option.some.injEq] at hrow
    subst hrow
    simp only [RowId.tokenValue, Token.value, htable, Int.toNat_natCast]
  · cases hrow

/-- The token of a row of the table of methods is resolved to that row. -/
theorem resolve?_methodToken {place : Nat} {rva : Int} {t : Token} (hplace : place < m.methods.size)
    (ht : MethodTableRow.token { rva, position := place } = .ok t) :
    m.resolve? t = some ⟨.methodDef, place + 1⟩ := by
  simp only [MethodTableRow.token, Token.ofPosition, Token.make] at ht
  split at ht
  · simp only [Except.ok.injEq] at ht
    subst ht
    simp only [resolve?, rowOfTable?, row?]
    have hkind : RowKind.ofTable? ((RowKind.methodDef.table : Nat) : Int) =
        some .methodDef := by decide
    rw [hkind, Option.bind_some, if_pos ⟨by omega, by simp only [count]; omega⟩]
    simp only [Option.some.injEq, RowId.mk.injEq, true_and]
    omega
  · cases ht

/-- The rows of the table of methods with an RVA, in table order. -/
def ridsAt (m : ModuleRows) (rva : Int) : List Nat := m.methodRids.filter fun rid => m.rva rid = rva

/-- The rows at an RVA are those that have it. -/
theorem mem_ridsAt {rva : Int} {rid : Nat} :
    rid ∈ m.ridsAt rva ↔ rid ∈ m.methodRids ∧ m.rva rid = rva := by
  simp [ridsAt]

/-- A row that is the only one with an RVA. -/
theorem ridsAt_eq_singleton {rva : Int} {rid : Nat} : m.ridsAt rva = [rid] ↔
    rid ∈ m.methodRids ∧ m.rva rid = rva ∧
      ∀ other ∈ m.methodRids, m.rva other = rva → other = rid := by
  constructor
  · intro h
    have hmem : ∀ other, other ∈ m.ridsAt rva ↔ other = rid := by simp [h]
    obtain ⟨hrid, hrva⟩ := mem_ridsAt.mp ((hmem rid).mpr rfl)
    exact ⟨hrid, hrva, fun other ho hr => (hmem other).mp (mem_ridsAt.mpr ⟨ho, hr⟩)⟩
  · rintro ⟨hrid, hrva, honly⟩
    refine List.perm_singleton.mp ((List.perm_ext_iff_of_nodup ?_ ?_).mpr ?_)
    · exact m.nodup_methodRids.filter _
    · exact List.pairwise_singleton _ _
    · intro other
      rw [mem_ridsAt, List.mem_singleton]
      exact ⟨fun ho => honly other ho.1 ho.2, fun ho => ho ▸ ⟨hrid, hrva⟩⟩

/-- The rows that the index of methods has for an RVA, by their numbers. -/
theorem find_methodTable {rva : Int} (hne : rva ≠ 0) :
    (MethodIndex.ofRows m.methodTable).find rva =
      (m.ridsAt rva).map fun rid => { rva, position := (rid - 1 : Nat) } := by
  rw [MethodIndex.find_ofRows, methodTable, ridsAt, methodRids, List.filter_map, List.filter_map,
    List.map_map]
  have hsame : (List.range m.methods.size).filter ((fun row : MethodTableRow =>
      decide (row.rva = rva ∧ rva ≠ 0)) ∘ fun place : Nat => ⟨m.rva (place + 1), place,
        RowKind.methodDef.table⟩) =
      (List.range m.methods.size).filter
        ((fun rid => decide (m.rva rid = rva)) ∘ (· + 1)) := by
    apply List.filter_congr
    intro place _
    simp [hne]
  rw [hsame]
  apply List.map_congr_left
  intro place hplace
  have hrva : m.rva (place + 1) = rva := by simpa using (List.mem_filter.mp hplace).2
  simp [hrva]

/-- What an RVA is resolved to: the only row that has it, when it is positive. -/
theorem resolve_methodTable (hcount : m.methods.size < 2 ^ (24 : Nat)) (rva : Int) :
    (MethodIndex.ofRows m.methodTable).resolve m.resolve? rva =
      if rva ≤ 0 then .ok none
      else
        match m.ridsAt rva with
        | [] => .ok none
        | [rid] => .ok (some ⟨.methodDef, rid⟩)
        | rids => .error (.ambiguousMethod rva rids.length) := by
  unfold MethodIndex.resolve
  by_cases hneg : rva < 0
  · rw [if_pos hneg, if_pos (by omega)]
  rw [if_neg hneg]
  by_cases hz : rva = 0
  · have hnone : (MethodIndex.ofRows m.methodTable).find rva = [] := by
      rw [MethodIndex.find_ofRows, List.filter_eq_nil_iff]
      simp [hz]
    rw [hnone, if_pos (by omega)]
  rw [find_methodTable hz, if_neg (by omega)]
  cases hrids : m.ridsAt rva with
  | nil => rfl
  | cons rid rest =>
    cases rest with
    | nil =>
      obtain ⟨hrid, -⟩ := mem_ridsAt.mp (show rid ∈ m.ridsAt rva by simp [hrids])
      obtain ⟨hpos, hle⟩ := mem_methodRids.mp hrid
      have htoken : MethodTableRow.token { rva, position := (rid - 1 : Nat) } =
          .ok ⟨RowKind.methodDef.table, rid, by omega⟩ := by
        simp only [MethodTableRow.token, Token.ofPosition, Token.make]
        rw [dif_pos (by omega)]
        simp only [Except.ok.injEq, Token.mk.injEq, true_and]
        omega
      refine Sequence.bind_eq_ok.mpr ⟨_, htoken, ?_⟩
      rw [resolve?_methodToken (by omega) htoken, Nat.sub_add_cancel hpos]
      rfl
    | cons second rest => simp

/-- An RVA that is resolved is the RVA of one row only, which is the answer. -/
theorem resolve_eq_some {rva : Int} {r : RowId}
    (h : (MethodIndex.ofRows m.methodTable).resolve m.resolve? rva = .ok (some r)) :
    rva ≠ 0 ∧ r.rid ∈ m.methodRids ∧ m.rva r.rid = rva ∧
      ∀ rid ∈ m.methodRids, m.rva rid = rva → rid = r.rid := by
  unfold MethodIndex.resolve at h
  split at h
  · cases h
  have hne : rva ≠ 0 := by
    rintro rfl
    rw [MethodIndex.find_ofRows, List.filter_eq_nil_iff.mpr (by simp)] at h
    cases h
  rw [find_methodTable hne] at h
  split at h
  · cases h
  · rename_i row hrows
    obtain ⟨rid, hrids, rfl⟩ := List.map_eq_singleton_iff.mp hrows
    obtain ⟨hrid, hrva, honly⟩ := ridsAt_eq_singleton.mp hrids
    obtain ⟨hpos, hle⟩ := mem_methodRids.mp hrid
    obtain ⟨token, htoken, hlook⟩ := Sequence.bind_eq_ok.mp h
    rw [resolve?_methodToken (by omega) htoken, Nat.sub_add_cancel hpos] at hlook
    simp only [if_true, pure, Except.pure, Except.ok.injEq, Option.some.injEq] at hlook
    subst hlook
    exact ⟨hne, hrid, hrva, honly⟩
  · cases h

end ModuleRows

/-- What a module has for a token has that token. -/
theorem Module.isFaithful_scope (m : Module) : m.scope.IsFaithful := by
  intro t row h
  simp only [scope] at h
  obtain ⟨r, hr, rfl⟩ := Option.map_eq_some_iff.mp h
  exact ModuleRows.tokenValue_of_resolve? hr

end CilRestore
