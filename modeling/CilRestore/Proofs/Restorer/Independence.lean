import Mathlib.Data.List.Perm.Basic
import CilRestore.Proofs.Restorer.ReadBack

/-!
# Entries do not depend on each other

What becomes of an entry does not depend on the other entries of its cache, nor on where it stands
among them: it is answered as if it were the only one (`Module.Answers`). The order of entries is
seen only where several are restored into one method, of which the last one stays. Where that does
not happen, caches of the same entries in any order leave the same methods with the same bodies.
-/

namespace CilRestore

namespace Module

variable {start m m' : Module} {base : Int} {bias : Item} {rid : Nat}
  {done done' : List (CacheEntry × RestoreResult)}

/-- An entry was restored into a method. -/
def isRestoredInto (m : Module) (rid : Nat) (result : RestoreResult) : Bool :=
  result.isRestored && result.rva = m.rows.rva rid

/-- The order of what was done does not matter for a method that at most one entry was restored
into. -/
theorem lastRestored_perm (hperm : done.Perm done')
    (hone : (done.map (·.2)).countP (start.isRestoredInto rid) ≤ 1) :
    start.lastRestored done rid = start.lastRestored done' rid := by
  have hfilter : ∀ l : List (CacheEntry × RestoreResult), start.lastRestored l rid =
      ((l.filter fun pair => start.isRestoredInto rid pair.2).reverse.head?).map (·.1.blob) := by
    intro l
    rw [lastRestored, ← List.filter_reverse, List.head?_filter]
    rfl
  have hshort : (done.filter fun pair => start.isRestoredInto rid pair.2).length ≤ 1 := by
    rwa [List.countP_map, List.countP_eq_length_filter] at hone
  have hsame := hperm.filter fun pair => start.isRestoredInto rid pair.2
  rw [hfilter, hfilter]
  generalize done.filter (fun pair => start.isRestoredInto rid pair.2) = found at hshort hsame
  rcases found with _ | ⟨pair, _ | ⟨second, rest⟩⟩
  · rw [List.nil_perm.mp hsame]
  · rw [List.singleton_perm.mp hsame]
  · simp at hshort

/-- What is done for entries in another order is what is done for them, in another order. -/
theorem Answers.zip_perm {entries entries' : List CacheEntry} {results results' : List RestoreResult}
    (h : List.Forall₂ (start.Answers base bias) entries results)
    (h' : List.Forall₂ (start.Answers base bias) entries' results')
    (hperm : entries.Perm entries') : (entries.zip results).Perm (entries'.zip results') := by
  have hzip : ∀ {entries : List CacheEntry} {results : List RestoreResult},
      List.Forall₂ (start.Answers base bias) entries results →
      List.Forall₂ (fun entry pair => pair.1 = entry ∧ start.Answers base bias entry pair.2) entries
        (entries.zip results) := by
    intro entries results h
    induction h with
    | nil => exact .nil
    | cons hfirst _ ih => exact .cons ⟨rfl, hfirst⟩ ih
  refine List.rel_perm_imp ?_ (hzip h) (hzip h') hperm
  rintro entry pair pair' ⟨hentry, hanswer⟩ ⟨hentry', hanswer'⟩
  exact Prod.ext (hentry.trans hentry'.symm) (hanswer.unique hanswer')

end Module

/-! ### Two caches for one module -/

/-- Restoring two caches into one module answers the same for each entry that is in both, wherever
it stands. When the caches have the same entries and at most one is restored into each method, then
the same methods are to be written, with the same bytes. -/
theorem restore_independent {m : Module} {s s' t t' : Restorer × Workspace}
    {results results' : List RestoreResult} (hfresh : m.IsFresh) (hs : s.2.module_ = m)
    (ht : t.2.module_ = m) (hbase : t.1.base = s.1.base) (hbias : t.1.bias = s.1.bias)
    (hrestore : (Restorer.restore (Workspace.bench s.2.methodIndex)).Ends s results s')
    (hrestore' : (Restorer.restore (Workspace.bench t.2.methodIndex)).Ends t results' t') :
    (∀ (i j : Nat) (entry : CacheEntry), s.1.entries[i]? = some entry →
      t.1.entries[j]? = some entry →
      ∃ result, results[i]? = some result ∧ results'[j]? = some result) ∧
    (s.1.entries.Perm t.1.entries →
      (∀ rid ∈ m.rows.methodRids, results.countP (m.isRestoredInto rid) ≤ 1) →
      s'.2.module_.patchedMethods = t'.2.module_.patchedMethods ∧
        ∀ rid ∈ s'.2.module_.patchedMethods, ∃ bytes,
          MethodBody.compile.Ends (s'.2.module_.bodyOf rid) bytes (s'.2.module_.bodyOf rid) ∧
          MethodBody.compile.Ends (t'.2.module_.bodyOf rid) bytes (t'.2.module_.bodyOf rid)) := by
  have hsize := hfresh.size
  have hstart : Module.Carries m m [] := .refl hfresh
  rw [Workspace.methodIndex, hs] at hrestore
  rw [Workspace.methodIndex, ht] at hrestore'
  obtain ⟨hanswers, hfollows⟩ := Restorer.ends_restore_follows hsize
    (by rw [hs]; exact hstart.toFollows) hrestore
  obtain ⟨hanswers', hfollows'⟩ := Restorer.ends_restore_follows hsize
    (by rw [ht]; exact hstart.toFollows) hrestore'
  rw [hbase, hbias] at hanswers'
  refine ⟨fun i j entry hi hj => ?_, fun hperm hone => ?_⟩
  · obtain ⟨result, hresult, hanswer⟩ := Sequence.getElem?_of_forall₂ hanswers hi
    obtain ⟨result', hresult', hanswer'⟩ := Sequence.getElem?_of_forall₂ hanswers' hj
    exact ⟨result, hresult, by rw [hresult', hanswer.unique hanswer']⟩
  · have carries : Module.Carries m s'.2.module_ _ := ⟨hfollows, hstart.fresh⟩
    have carries' : Module.Carries m t'.2.module_ _ := ⟨hfollows', hstart.fresh⟩
    have hlast : ∀ rid ∈ m.rows.methodRids, m.lastRestored (s.1.entries.zip results) rid =
        m.lastRestored (t.1.entries.zip results') rid := by
      intro rid hrid
      refine Module.lastRestored_perm (Module.Answers.zip_perm hanswers hanswers' hperm) ?_
      rw [List.map_snd_zip (Nat.le_of_eq hanswers.length_eq.symm)]
      exact hone rid hrid
    have hpatched : s'.2.module_.patchedMethods = t'.2.module_.patchedMethods := by
      rw [Module.patchedMethods_eq, Module.patchedMethods_eq, hfollows.file.rows,
        hfollows'.file.rows]
      refine List.filter_congr fun rid hrid => ?_
      rw [carries.isModified_eq hrid, carries'.isModified_eq hrid, hlast rid hrid]
    refine ⟨hpatched, fun rid hrid => ?_⟩
    rw [Module.patchedMethods_eq, List.mem_filter, hfollows.file.rows] at hrid
    obtain ⟨hrid, hmodified⟩ := hrid
    rw [carries.isModified_eq hrid, Option.isSome_iff_exists] at hmodified
    obtain ⟨blob, hblob⟩ := hmodified
    obtain ⟨pool, bytes, hdecode, hcompiled, hknown⟩ := carries.compiled hrid hblob
    rw [hlast rid hrid] at hblob
    obtain ⟨pool', bytes', hdecode', hcompiled', hknown'⟩ := carries'.compiled hrid hblob
    rw [hdecode, Except.ok.injEq] at hdecode'
    subst hdecode'
    rw [hcompiled, Except.ok.injEq] at hcompiled'
    subst hcompiled'
    exact ⟨bytes, (Module.ends_compile_of_known hknown).mpr ⟨rfl, rfl⟩,
      (Module.ends_compile_of_known hknown').mpr ⟨rfl, rfl⟩⟩

/-- Code for both methods, and code for the second one that does not decode. -/
def Sample.three : Restorer × Workspace :=
  withEntries [⟨0x402049, [0x2A]⟩, ⟨0x40204D, [0xFF]⟩, ⟨0x40204D, [0x00, 0x2A]⟩]

/-- The same entries from the last one to the first. -/
def Sample.threeBack : Restorer × Workspace := withEntries three.1.entries.reverse

/-- The three entries in one order and in the other: the first one is answered the same, and the
second method is to be written with the same bytes. -/
theorem restore_independent_of_three : ∃ results results' s' t' result bytes,
    (Restorer.restore (Workspace.bench Sample.three.2.methodIndex)).Ends Sample.three results s' ∧
    (Restorer.restore (Workspace.bench Sample.threeBack.2.methodIndex)).Ends Sample.threeBack
      results' t' ∧
    results[0]? = some result ∧ results'[2]? = some result ∧
    2 ∈ s'.2.module_.patchedMethods ∧ 2 ∈ t'.2.module_.patchedMethods ∧
    MethodBody.compile.Ends (s'.2.module_.bodyOf 2) bytes (s'.2.module_.bodyOf 2) ∧
    MethodBody.compile.Ends (t'.2.module_.bodyOf 2) bytes (t'.2.module_.bodyOf 2) := by
  have hknown :
      (Restorer.restore (Workspace.bench Sample.three.2.methodIndex)
        Sample.three).result.toOption.isSome ∧
      (Restorer.restore (Workspace.bench Sample.threeBack.2.methodIndex)
        Sample.threeBack).result.toOption.isSome ∧
      (∀ rid ∈ Sample.module_.rows.methodRids,
        (((Restorer.restore (Workspace.bench Sample.three.2.methodIndex)
          Sample.three).result.toOption.getD []).countP (Sample.module_.isRestoredInto rid)) ≤ 1) ∧
      2 ∈ (Restorer.restore (Workspace.bench Sample.three.2.methodIndex)
        Sample.three).state.2.module_.patchedMethods := by decide +kernel
  obtain ⟨hends, hends', hone, hpatched⟩ := hknown
  have hrestore := Action.ends_getD hends []
  have hrestore' := Action.ends_getD hends' []
  obtain ⟨hsame, hperm⟩ := restore_independent (s := Sample.three) (t := Sample.threeBack)
    Sample.isFresh rfl rfl rfl rfl hrestore hrestore'
  obtain ⟨result, hresult, hresult'⟩ := hsame 0 2 ⟨0x402049, [0x2A]⟩ rfl rfl
  obtain ⟨heq, hbytes⟩ := hperm (List.reverse_perm _).symm hone
  obtain ⟨bytes, hcompile, hcompile'⟩ := hbytes 2 hpatched
  exact ⟨_, _, _, _, result, bytes, hrestore, hrestore', hresult, hresult', hpatched,
    heq ▸ hpatched, hcompile, hcompile'⟩

end CilRestore
