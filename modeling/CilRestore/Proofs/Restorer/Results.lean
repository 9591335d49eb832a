import CilRestore.Proofs.Restorer.ReadBack

/-!
# What becomes of entries

Restoring a harvested cache into a module none of whose rows is named through itself always comes to
its end, with one result for each entry. What the result says is decided by the rows that have the
RVA of the key and, when that is one row, by whether the code decodes and needs no deeper stack than
a header can say (`Module.IsResultOf`). An entry that cannot be restored stops no other one and
changes no body.
-/

namespace CilRestore

/-- Decoded instructions are numbered already. -/
theorem Lists.mapIdx_index {chunks : List Chunk} {p : Pool} (h : Lists chunks p) :
    p.mapIdx (fun place i => { i with index := place }) = p := by
  apply Array.ext_getElem?
  intro place
  rw [Array.getElem?_mapIdx]
  rcases Nat.lt_or_ge place p.size with hlt | hge
  · have hindex := h.index place _
      (List.getElem?_eq_getElem (by rw [← h.size_eq]; exact hlt : place < chunks.length))
    rw [Pool.getElem?_of_lt hlt, Option.map_some, ← hindex]
  · rw [Array.getElem?_eq_none hge, Option.map_none]

namespace Module

variable {opened m : Module} {rid : Nat} {base bias : Int} {entry : CacheEntry}
  {result : RestoreResult}

/-- A state of a module that was opened: any instructions may have been put into its bodies, behind
the stubs of the file. -/
structure IsStateOf (opened m : Module) : Prop where
  /-- The file is the same. -/
  file : SameFile opened m
  /-- So are the stubs. -/
  stub : ∀ rid ∈ opened.rows.methodRids, (m.bodyOf rid).stub = opened.stubOf rid

/-- A module of which no body was looked at is a state of itself. -/
theorem IsStateOf.refl (h : opened.IsFresh) : IsStateOf opened opened :=
  ⟨.refl opened, fun rid hrid => by rw [(Carries.refl h).fresh rid hrid]⟩

/-- Code can be put back into a method: there is some, it decodes, and behind the clauses of the
stub it needs no deeper stack than a header can say. -/
def IsRestorable (m : Module) (rid : Nat) (blob : Bytes) : Prop :=
  blob ≠ [] ∧ ∃ pool depth, decode m.scope (m.rows.methodName rid) blob = .ok pool ∧
    (m.stubOf rid).NeedsDepth pool depth ∧ depth ≤ 0xFFFF

/-- What the result of an entry says. -/
structure IsResultOf (m : Module) (base bias : Int) (entry : CacheEntry) (result : RestoreResult) :
    Prop where
  /-- It names the key. -/
  key_eq : result.key = entry.key
  /-- It names the RVA that the key stands for. -/
  rva_eq : result.rva = entry.key - base - bias
  /-- An entry is restored when one method has the RVA and the code can be put back into it. -/
  restored_iff : result.status = .restored ↔ entry.key ≠ 0 ∧ 0 < result.rva ∧
    ∃ rid, m.rows.ridsAt result.rva = [rid] ∧ m.IsRestorable rid entry.blob
  /-- It is ambiguous when several methods have the RVA. -/
  ambiguous_iff : result.status = .ambiguous ↔
    entry.key ≠ 0 ∧ 0 < result.rva ∧ 2 ≤ (m.rows.ridsAt result.rva).length
  /-- It is not found when no method has. -/
  notFound_iff : result.status = .notFound ↔
    entry.key = 0 ∨ result.rva ≤ 0 ∨ m.rows.ridsAt result.rva = []
  /-- There is one more thing that can become of it. -/
  otherwise : result.status ≠ .restored → result.status ≠ .ambiguous →
    result.status ≠ .notFound → result.status = .decodeError

/-- The cases that a result can be in, one for each status. -/
theorem IsResultOf.of_status (hkey : result.key = entry.key)
    (hrva : result.rva = entry.key - base - bias)
    (hstatus : result.status = .notFound ∧
        (entry.key = 0 ∨ result.rva ≤ 0 ∨ m.rows.ridsAt result.rva = []) ∨
      (entry.key ≠ 0 ∧ 0 < result.rva) ∧
        (result.status = .ambiguous ∧ 2 ≤ (m.rows.ridsAt result.rva).length ∨
          ∃ rid, m.rows.ridsAt result.rva = [rid] ∧
            (result.status = .restored ∧ m.IsRestorable rid entry.blob ∨
              result.status = .decodeError ∧ ¬ m.IsRestorable rid entry.blob))) :
    IsResultOf m base bias entry result := by
  have hone : ∀ rid other, m.rows.ridsAt result.rva = [rid] → m.rows.ridsAt result.rva = [other] →
      other = rid := by
    intro rid other h h'
    rw [h] at h'
    exact (List.cons.inj h').1.symm
  rcases hstatus with ⟨hs, hnone⟩ | ⟨⟨hne, hpos⟩, ⟨hs, hmany⟩ | ⟨rid, hrid, ⟨hs, hyes⟩ | ⟨hs, hno⟩⟩⟩
  · refine ⟨hkey, hrva, ?_, ?_, by simp [hs, hnone], by simp [hs]⟩
    · rw [hs]
      simp only [reduceCtorEq, false_iff, not_and, not_exists]
      intro hne hpos rid hrid
      rw [hrid] at hnone
      simp [hne] at hnone
      omega
    · rw [hs]
      simp only [reduceCtorEq, false_iff, not_and]
      intro hne hpos hmany
      rcases hnone with hz | hle | hnil
      · exact hne hz
      · omega
      · rw [hnil] at hmany
        simp at hmany
  · refine ⟨hkey, hrva, ?_, by simp [hs, hne, hpos, hmany], ?_, by simp [hs]⟩
    · rw [hs]
      simp only [reduceCtorEq, false_iff, not_and, not_exists]
      intro _ _ rid hrid
      rw [hrid] at hmany
      simp at hmany
    · rw [hs]
      simp only [reduceCtorEq, false_iff, not_or]
      refine ⟨hne, by omega, fun hnil => ?_⟩
      rw [hnil] at hmany
      simp at hmany
  · refine ⟨hkey, hrva, ?_, by simp [hs, hrid], ?_, by simp [hs]⟩
    · simp only [hs, true_iff]
      exact ⟨hne, hpos, rid, hrid, hyes⟩
    · simp [hs, hne, hrid]
      omega
  · refine ⟨hkey, hrva, ?_, by simp [hs, hrid], ?_, by simp [hs]⟩
    · simp only [hs, reduceCtorEq, false_iff, not_and, not_exists]
      intro _ _ other hother
      rwa [hone rid other hrid hother]
    · simp [hs, hne, hrid]
      omega

section entries

variable (hfresh : opened.IsFresh) (hacyclic : opened.scope.IsAcyclic)
  (hstate : IsStateOf opened m)

include hacyclic hstate

include hfresh in
/-- Restoring code into a method answers whether it can be put back. -/
theorem exists_result_restoreMethod (address : RuntimeAddress) {blob : Bytes}
    (hrid : rid ∈ opened.rows.methodRids)
    (hclauses : (opened.stubOf rid).clauses.length ≤ BodyFormat.clauseLimit)
    (hblob : blob.length ≤ 0xFFFFFFFF) :
    ∃ result, (restoreMethod address blob rid m).result = .ok result ∧
      result.key = address.key ∧ result.rva = address.rva ∧
      (result.status = .restored ∧ opened.IsRestorable rid blob ∨
        result.status = .decodeError ∧ ¬ opened.IsRestorable rid blob) := by
  have hfile := hstate.file
  have hsize : m.bodies.size = m.rows.methods.size := by
    rw [hfile.size, hfile.rows, hfresh.size]
  have hrid' : rid ∈ m.rows.methodRids := by rwa [hfile.rows]
  unfold restoreMethod decodeFor
  rw [Action.read_bind_apply, hfile.rows, hfile.scope_eq]
  simp only
  split
  · rename_i hempty
    refine ⟨_, rfl, rfl, rfl, Or.inr ⟨rfl, ?_⟩⟩
    rintro ⟨hne, -⟩
    exact hne (List.isEmpty_iff.mp hempty)
  rename_i hfilled
  cases hdecode : decode opened.scope (opened.rows.methodName rid) blob with
  | error e =>
    refine ⟨_, rfl, rfl, rfl, Or.inr ⟨rfl, ?_⟩⟩
    rintro ⟨-, pool, depth, hpool, -⟩
    rw [hdecode] at hpool
    cases hpool
  | ok pool =>
    obtain ⟨-, depth, hdepth, hcompiles⟩ := recompile_decoded opened.isFaithful_scope
      hacyclic hdecode (opened.stubOf_isOfWords rid) hclauses hblob
    have hanswer := result_installDecoded pool hsize hrid'
    rw [hstate.stub rid hrid] at hanswer
    rcases hcompiles with ⟨hflat, bytes, hcompiled⟩ | ⟨hdeep, hcompiled⟩
    · rw [hcompiled] at hanswer
      refine ⟨_, Action.result_bind_of_ends ⟨hanswer, rfl⟩, rfl, rfl, Or.inl ⟨rfl, ?_⟩⟩
      exact ⟨by simpa using hfilled, pool, depth, hdecode, hdepth, hflat⟩
    · rw [hcompiled] at hanswer
      refine ⟨_, Action.result_bind_of_ends ⟨hanswer, rfl⟩, rfl, rfl, Or.inr ⟨rfl, ?_⟩⟩
      rintro ⟨-, pool', depth', hpool', hdepth', hle⟩
      rw [hdecode, Except.ok.injEq] at hpool'
      subst hpool'
      have := hdepth.unique hdepth'
      omega

include hfresh in
/-- Something is always answered for an entry. -/
theorem exists_result_restoreEntry (base bias : Int)
    (hrows : opened.rows.methods.size < 2 ^ (24 : Nat))
    (hclauses : ∀ rid ∈ opened.rows.methodRids,
      (opened.stubOf rid).clauses.length ≤ BodyFormat.clauseLimit)
    (hblob : entry.blob.length ≤ 0xFFFFFFFF) :
    ∃ result, (restoreEntry (.ofRows m.rows.methodTable) base bias entry m).result = .ok result ∧
      opened.IsResultOf base bias entry result := by
  have hfile := hstate.file
  unfold restoreEntry
  rw [Action.read_bind_apply, hfile.rows]
  simp only
  split
  · rename_i hzero
    exact ⟨_, rfl, .of_status rfl rfl (Or.inl ⟨rfl, Or.inl (by simpa [CacheEntry.isSentinel] using
      hzero)⟩)⟩
  rename_i hkey
  have hkey : entry.key ≠ 0 := by simpa [CacheEntry.isSentinel] using hkey
  split
  · rename_i hbelow
    refine ⟨_, rfl, .of_status rfl rfl (Or.inl ⟨rfl, Or.inr (Or.inl ?_)⟩)⟩
    simp only [RuntimeAddress.isValid, Bool.not_eq_true', decide_eq_false_iff_not] at hbelow
    exact Int.le_of_lt (Int.not_le.mp hbelow)
  rw [ModuleRows.resolve_methodTable hrows]
  split
  · rename_i hnone
    exact ⟨_, rfl, .of_status rfl rfl (Or.inl ⟨rfl, Or.inr (Or.inl hnone)⟩)⟩
  rename_i hpos
  have hpos := Int.not_le.mp hpos
  cases hrids : opened.rows.ridsAt (RuntimeAddress.mk entry.key base bias).rva with
  | nil => exact ⟨_, rfl, .of_status rfl rfl (Or.inl ⟨rfl, Or.inr (Or.inr hrids)⟩)⟩
  | cons rid rest =>
    cases rest with
    | nil =>
      have hrid := (ModuleRows.ridsAt_eq_singleton.mp hrids).1
      obtain ⟨result, hresult, hk, hr, hstatus⟩ :=
        exists_result_restoreMethod hfresh hacyclic hstate ⟨entry.key, base, bias⟩ hrid
          (hclauses rid hrid) hblob
      refine ⟨result, hresult, .of_status hk hr (Or.inr ⟨⟨hkey, ?_⟩, Or.inr ⟨rid, ?_, hstatus⟩⟩)⟩
      · rw [hr]
        exact hpos
      · rw [hr]
        exact hrids
    | cons second rest =>
      refine ⟨_, rfl, .of_status rfl rfl (Or.inr ⟨⟨hkey, hpos⟩, Or.inl ⟨rfl, ?_⟩⟩)⟩
      rw [hrids]
      simp

/-- A body that code was put into has the instructions of the code. -/
theorem Installed.instructions {m' : Module} {blob : Bytes} (h : Installed m m' rid blob)
    (hrid : rid ∈ opened.rows.methodRids)
    (hclauses : (opened.stubOf rid).clauses.length ≤ BodyFormat.clauseLimit)
    (hblob : blob.length ≤ 0xFFFFFFFF) :
    ∃ pool, decode opened.scope (opened.rows.methodName rid) blob = .ok pool ∧
      (m'.bodyOf rid).pool = pool ∧ (m'.bodyOf rid).order = List.range pool.size := by
  obtain ⟨pool, bytes, hdecode, -, hself⟩ := h
  rw [hstate.file.scope_eq, hstate.file.rows] at hdecode
  rw [hstate.stub rid hrid, (recompile_decoded opened.isFaithful_scope hacyclic
    hdecode (opened.stubOf_isOfWords rid) hclauses hblob).1] at hself
  obtain ⟨chunks, hparses, hp⟩ := decode_eq_ok.mp hdecode
  refine ⟨pool, hdecode, ?_, by rw [hself]; rfl⟩
  rw [hself]
  exact (hp.lists hparses.complete).mapIdx_index

end entries

/-- A method has the code of a restored entry only if there is such an entry. -/
theorem exists_entry_of_lastRestored {done : List (CacheEntry × RestoreResult)} {blob : Bytes}
    (h : m.lastRestored done rid = some blob) : ∃ pair ∈ done, pair.1.blob = blob := by
  obtain ⟨pair, hfind, hblob⟩ := Option.map_eq_some_iff.mp h
  exact ⟨pair, List.mem_reverse.mp (List.mem_of_find?_eq_some hfind), hblob⟩

end Module

/-! ### Restoring a harvested cache -/

/-- Restoring a harvested cache ends, with one result for each entry in their order, and the result
says what became of the entry. All that is asked of the rows is that none of them is named through
itself, as none is in a file (`Module.isAcyclic_of_ofBytes`). Each method with a restored entry then
has the instructions that the last one decodes to, and the others have the bodies that they had. -/
theorem restore_answers_each_entry {opened : Module} {s : Restorer × Workspace} {bias : Int}
    (hfresh : opened.IsFresh) (hacyclic : opened.scope.IsAcyclic)
    (hstate : opened.IsStateOf s.2.module_) (hstage : s.1.stage = .harvested)
    (hbias : s.1.bias = .integer bias) (hrows : opened.rows.methods.size < 2 ^ (24 : Nat))
    (hclauses : ∀ rid ∈ opened.rows.methodRids, (opened.stubOf rid).clauses.length ≤ 699050)
    (hblobs : ∀ entry ∈ s.1.entries, entry.blob.length < 0x100000000) :
    ∃ results s', (Restorer.restore (Workspace.bench s.2.methodIndex)).Ends s results s' ∧
      List.Forall₂ (opened.IsResultOf s.1.base bias) s.1.entries results ∧
      ∀ rid ∈ opened.rows.methodRids,
        (∀ blob, opened.lastRestored (s.1.entries.zip results) rid = some blob →
          ∃ pool, decode opened.scope (opened.rows.methodName rid) blob = .ok pool ∧
            (s'.2.module_.bodyOf rid).pool = pool ∧
            (s'.2.module_.bodyOf rid).order = List.range pool.size) ∧
        (opened.lastRestored (s.1.entries.zip results) rid = none →
          s'.2.module_.bodyOf rid = s.2.module_.bodyOf rid) := by
  have hfile := hstate.file
  have hsize : s.2.module_.bodies.size = s.2.module_.rows.methods.size := by
    rw [hfile.size, hfile.rows, hfresh.size]
  have hanswers : ∀ entry ∈ s.1.entries, ∃ result,
      s.2.module_.Answers s.1.base s.1.bias entry result ∧
        opened.IsResultOf s.1.base bias entry result := by
    intro entry hentry
    obtain ⟨result, hresult, hsays⟩ := Module.exists_result_restoreEntry hfresh hacyclic hstate
      s.1.base bias hrows hclauses (Nat.le_of_lt_succ (hblobs entry hentry))
    exact ⟨result, ⟨bias, by rw [hbias]; rfl, hresult⟩, hsays⟩
  obtain ⟨results, s', hends⟩ := Restorer.exists_ends_restore hsize (.refl _) hstage
    (by rw [hbias]; rfl) fun entry hentry => (hanswers entry hentry).imp fun _ h => h.1
  obtain ⟨hresults, hfollows⟩ := Restorer.ends_restore_follows hsize (.refl _) hends
  have hlast : s.2.module_.lastRestored (s.1.entries.zip results) =
      opened.lastRestored (s.1.entries.zip results) := by
    funext rid
    rw [Module.lastRestored, Module.lastRestored, hfile.rows]
  refine ⟨results, s', hends, ?_, fun rid hrid => ⟨fun blob hblob => ?_, fun hnone => ?_⟩⟩
  · refine ((List.forall₂_and_left _ _).mpr ⟨fun entry h => h, hresults⟩).imp ?_
    rintro entry result ⟨hentry, hanswer⟩
    obtain ⟨other, hother, hsays⟩ := hanswers entry hentry
    rwa [hanswer.unique hother]
  · obtain ⟨pair, hpair, hof⟩ := Module.exists_entry_of_lastRestored hblob
    have hlt := hblobs pair.1 (List.of_mem_zip hpair).1
    rw [hof] at hlt
    exact (hfollows.restored rid (by rwa [hfile.rows]) blob (by rw [hlast, hblob])).installed
      |>.instructions hacyclic hstate hrid (hclauses rid hrid) (Nat.le_of_lt_succ hlt)
  · exact hfollows.untouched rid (by rwa [hfile.rows]) (by rw [hlast, hnone])

/-- The key 0, code for the first method, code for the second one that does not decode, and the key
of no method. -/
def Sample.mixed : Restorer × Workspace := withEntries
  [⟨0, [0x2A]⟩, ⟨0x402049, [0x00, 0x2A]⟩, ⟨0x40204D, [0xFF]⟩, ⟨0x500000, [0x2A]⟩]

/-- The four entries: the key 0 and the last one are not found, the code that does not decode leaves
the second method as it was, and the first one has its code. -/
theorem restore_answers_each_entry_of_mixed : ∃ results s' pool,
    (Restorer.restore (Workspace.bench Sample.mixed.2.methodIndex)).Ends Sample.mixed results s' ∧
    List.Forall₂ (Sample.module_.IsResultOf 0x400000 1) Sample.mixed.1.entries results ∧
    results.map RestoreResult.status = [.notFound, .restored, .decodeError, .notFound] ∧
    decode Sample.module_.scope (Sample.module_.rows.methodName 1) [0x00, 0x2A] = .ok pool ∧
    (s'.2.module_.bodyOf 1).pool = pool ∧ (s'.2.module_.bodyOf 1).order = List.range pool.size ∧
    s'.2.module_.bodyOf 2 = Sample.module_.bodyOf 2 := by
  obtain ⟨results, s', hends, hresults, hbodies⟩ := restore_answers_each_entry
    (s := Sample.mixed) Sample.isFresh (Module.isAcyclic_of_ofBytes Sample.ofBytes_image)
    (.refl Sample.isFresh) rfl rfl (by decide +kernel)
    (by decide +kernel) (by decide)
  have hknown : (Restorer.restore (Workspace.bench Sample.mixed.2.methodIndex)
        Sample.mixed).result.toOption.all (fun results => results.map RestoreResult.status =
          [.notFound, .restored, .decodeError, .notFound] ∧
        Sample.module_.lastRestored (Sample.mixed.1.entries.zip results) 1 = some [0x00, 0x2A] ∧
        Sample.module_.lastRestored (Sample.mixed.1.entries.zip results) 2 = none) = true ∧
      1 ∈ Sample.module_.rows.methodRids ∧ 2 ∈ Sample.module_.rows.methodRids := by
    decide +kernel
  obtain ⟨hall, hfirst, hsecond⟩ := hknown
  rw [Sequence.toOption_eq_some.mpr hends.1, Option.all_some, decide_eq_true_eq] at hall
  obtain ⟨hstatus, hlast, hnone⟩ := hall
  obtain ⟨pool, hpool, hbody, horder⟩ := (hbodies 1 hfirst).1 _ hlast
  exact ⟨results, s', pool, hends, hresults, hstatus, hpool, hbody, horder,
    (hbodies 2 hsecond).2 hnone⟩

end CilRestore
