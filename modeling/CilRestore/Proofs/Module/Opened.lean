import CilRestore.Module.Open
import CilRestore.Proofs.Body.Compilable
import CilRestore.Proofs.Metadata.CompressedNumbers
import CilRestore.Proofs.Sequence

/-!
# Modules that were read

What holds of every module that was read from a file, whatever the file. No body was looked at. An
instance of a generic method is coded as one of a method or of a member, so the chain from a row to
the signature behind it has at most two links, and no method is named through itself.
-/

namespace CilRestore

/-! ### Signatures -/

/-- All that can go wrong is that a signature cannot be read. -/
def FailsAsSignature {α : Type} (x : Except Fault α) : Prop :=
  ∀ e, x = .error e → ∃ kind, e = .invalidSignature kind

namespace FailsAsSignature

theorem ok {α : Type} (a : α) : FailsAsSignature (.ok a) := fun _ h => by cases h

theorem error {α : Type} (kind : String) :
    FailsAsSignature (.error (.invalidSignature kind) : Except Fault α) := by
  intro e h
  cases h
  exact ⟨kind, rfl⟩

/-- Two steps that fail so in turn fail so together. -/
theorem bind {α β : Type} {x : Except Fault α} {f : α → Except Fault β} (hx : FailsAsSignature x)
    (hf : ∀ a, FailsAsSignature (f a)) : FailsAsSignature (x >>= f) := by
  intro e h
  rcases Sequence.bind_eq_error.mp h with h | ⟨a, -, h⟩
  · exact hx e h
  · exact hf a e h

end FailsAsSignature

theorem Compressed.failsAsSignature (bs : Bytes) : FailsAsSignature (read bs) :=
  fun _ h => ⟨_, error_of_read h⟩

namespace MethodSignature

theorem skipModifiers_failsAsSignature (bs : Bytes) : FailsAsSignature (skipModifiers bs) := by
  fun_induction skipModifiers bs with
  | case1 => exact .ok _
  | case2 b rest hb fault hread =>
    obtain ⟨kind, rfl⟩ := Compressed.failsAsSignature rest fault hread
    exact .error kind
  | case3 b rest hb value size hread ih => exact ih
  | case4 b rest hb => exact .ok _

/-- Parsing a signature fails as one. -/
theorem parse_failsAsSignature (bs : Bytes) : FailsAsSignature (parse bs) := by
  cases bs with
  | nil => exact .error _
  | cons convention rest =>
    simp only [parse]
    split
    · exact .error _
    · split
      · refine .bind (Compressed.failsAsSignature _) fun _ =>
          .bind (Compressed.failsAsSignature _) fun _ =>
          .bind (skipModifiers_failsAsSignature _) fun _ => ?_
        split
        · exact .error _
        · exact .ok _
      · refine .bind (.ok _) fun _ => .bind (Compressed.failsAsSignature _) fun _ =>
          .bind (skipModifiers_failsAsSignature _) fun _ => ?_
        split
        · exact .error _
        · exact .ok _

end MethodSignature

/-! ### Rows from files -/

namespace ModuleRows

/-- Instances of generic methods are coded as instances of methods or members. -/
def NamesMethods (m : ModuleRows) : Prop :=
  ∀ coded, some coded ∈ m.methodSpecs.toList → ∀ table, coded.table = some table →
    table = RowKind.methodDef.table ∨ table = RowKind.memberRef.table

/-- The rows of a file name methods and members only: other tables cannot be coded. -/
theorem namesMethods_read (t : MetadataTables) : (read t).NamesMethods := by
  intro coded hmem table htable
  simp only [read, List.mem_map] at hmem
  obtain ⟨row, -, hrow⟩ := hmem
  obtain ⟨value, -, rfl⟩ := Option.map_eq_some_iff.mp hrow
  obtain ⟨_, hcast, rfl⟩ := Option.map_eq_some_iff.mp htable
  obtain ⟨found, hfound, hcast⟩ := Option.bind_eq_some_iff.mp hcast
  cases hcast
  have hin : (some found : Option Nat) ∈ IndexCode.methodDefOrRef.tables :=
    List.mem_of_getElem? (Option.join_eq_some_iff.mp hfound)
  simp only [IndexCode.methodDefOrRef, IndexCode.ofTables, List.map_cons, List.map_nil,
    List.mem_cons, Option.some.injEq, List.not_mem_nil, or_false] at hin
  rcases hin with rfl | rfl
  · exact Or.inl rfl
  · exact Or.inr rfl

variable {m : ModuleRows}

/-- What an instance of a generic method is an instance of has a signature of its own. -/
theorem kind_generic? (h : m.NamesMethods) {r method : RowId} (hr : m.generic? r = some method) :
    (method.kind = .methodDef ∨ method.kind = .memberRef) ∧ 0 < m.total := by
  unfold generic? at hr
  split at hr
  · obtain ⟨cell, hcell, hcoded⟩ := Option.bind_eq_some_iff.mp hr
    obtain ⟨coded, rfl, hrow⟩ := Option.bind_eq_some_iff.mp hcoded
    obtain ⟨table, htable, hrow⟩ := Option.bind_eq_some_iff.mp hrow
    obtain ⟨kind, hkind, hrow⟩ := Option.bind_eq_some_iff.mp hrow
    have hmem : some coded ∈ m.methodSpecs.toList :=
      Array.mem_toList_iff.mpr (Array.mem_of_getElem? hcell)
    have hpos : 0 < m.methodSpecs.size := Array.size_pos_of_mem (Array.mem_of_getElem? hcell)
    refine ⟨?_, ?_⟩
    · have hmethod : method.kind = kind := by
        unfold row? at hrow
        split at hrow
        · rw [Option.some.injEq] at hrow
          rw [← hrow]
        · cases hrow
      rw [hmethod]
      rcases h coded hmem table htable with rfl | rfl
      · exact Or.inl (Option.some.inj (hkind.symm.trans (by decide)))
      · exact Or.inr (Option.some.inj (hkind.symm.trans (by decide)))
    · simp only [total, RowKind.all, List.map_cons, List.sum_cons, count]
      omega
  · cases hr

theorem methodSignatureWithin_of_own (fuel : Nat) {r : RowId}
    (hr : r.kind = .methodDef ∨ r.kind = .memberRef) :
    m.methodSignatureWithin fuel r = MethodSignature.parse ((m.signatureBytes? r).getD []) := by
  unfold methodSignatureWithin
  rcases hr with hr | hr <;> simp only [hr]

/-- Looking for the signature of a row comes to an end. -/
theorem methodSignature_ne_endless (h : m.NamesMethods) (r : RowId) :
    m.methodSignature r ≠ .error .endless := by
  have hparse : ∀ bs : Bytes, MethodSignature.parse bs ≠ .error .endless := by
    intro bs hbs
    obtain ⟨kind, hkind⟩ := MethodSignature.parse_failsAsSignature bs _ hbs
    cases hkind
  unfold methodSignature methodSignatureWithin
  split
  · exact hparse _
  · exact hparse _
  · exact hparse _
  · split
    · simp [MethodSignature.malformed]
    · rename_i hgeneric hfuel
      have htotal := (kind_generic? h hgeneric).2
      omega
    · rename_i hgeneric hfuel
      rw [methodSignatureWithin_of_own _ (kind_generic? h hgeneric).1]
      exact hparse _
  · simp

/-- So no row is named through itself. -/
theorem callee_ne_circular (h : m.NamesMethods) (r : RowId) : m.callee r ≠ .circular := by
  unfold callee
  split
  · simp
  · rename_i hendless
    exact absurd hendless (methodSignature_ne_endless h r)
  · simp

end ModuleRows

namespace Module

variable {data : Bytes} {path : Option String} {m : Module}

/-- A file is read as the rows of its tables. -/
theorem ofBytes_eq_ok (h : ofBytes data path = .ok m) :
    ∃ tables source, m = ofRows (ModuleRows.read tables) data source path := by
  unfold ofBytes at h
  obtain ⟨_, -, h⟩ := Sequence.bind_eq_ok.mp h
  obtain ⟨_, -, h⟩ := Sequence.bind_eq_ok.mp h
  obtain ⟨_, -, h⟩ := Sequence.bind_eq_ok.mp h
  obtain ⟨_, -, h⟩ := Sequence.bind_eq_ok.mp h
  obtain ⟨tables, -, h⟩ := Sequence.bind_eq_ok.mp h
  obtain ⟨_, -, h⟩ := Sequence.bind_eq_ok.mp h
  simp only [pure, Except.pure, Except.ok.injEq] at h
  exact ⟨tables, _, h.symm⟩

/-- No body of a module was looked at when it was just read. -/
theorem isFresh_of_ofBytes (h : ofBytes data path = .ok m) : m.IsFresh := by
  obtain ⟨_, _, rfl⟩ := ofBytes_eq_ok h
  rfl

/-- In a module that was read no method is named through itself. -/
theorem isAcyclic_of_ofBytes (h : ofBytes data path = .ok m) : m.scope.IsAcyclic := by
  obtain ⟨tables, source, rfl⟩ := ofBytes_eq_ok h
  intro t row hrow
  obtain ⟨r, -, rfl⟩ := Option.map_eq_some_iff.mp hrow
  exact ModuleRows.callee_ne_circular (ModuleRows.namesMethods_read tables) r

end Module

end CilRestore
