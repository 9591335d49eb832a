import CilRestore.Proofs.Module.Bodies
import CilRestore.Restorer.Workspace

/-!
# Restoring entries

What restoring one entry does to a module: nothing, or it puts the code of the entry into the one
method whose RVA the key stands for. From that follows what restoring a whole cache does
(`Follows`): each method has the code of the last entry that was restored into it, compiled behind
its stub, and a method without such an entry is as it was. What is answered for an entry depends on
the file and the stubs of its methods only, which no entry changes (`Answers`).
-/

namespace CilRestore.Module

variable {m m' : Module} {rid : Nat}

/-- Code was decoded, compiled behind the stub of a method and put into its body. -/
def Installed (m m' : Module) (rid : Nat) (blob : Bytes) : Prop :=
  ∃ pool bytes, decode m.scope (m.rows.methodName rid) blob = .ok pool ∧
    (recompile (m.bodyOf rid).stub pool).result = .ok bytes ∧
    m'.bodyOf rid = (m.bodyOf rid).replace (recompile (m.bodyOf rid).stub pool).state (some bytes)

/-- Code was put into the body of a method, and into no other. -/
structure Restores (m m' : Module) (rid : Nat) (blob : Bytes) : Prop where
  /-- There is code. -/
  filled : blob ≠ []
  /-- It is in the body. -/
  self : Installed m m' rid blob
  /-- The other bodies are as they were. -/
  others : ∀ other ∈ m.rows.methodRids, other ≠ rid → m'.bodyOf other = m.bodyOf other

/-- Installing decoded code compiles it behind the stub and changes that body only, or it fails and
changes none. -/
theorem ends_installDecoded {pool : Pool} {answer : Except Fault Unit}
    (hsize : m.bodies.size = m.rows.methods.size) (hrid : rid ∈ m.rows.methodRids)
    (h : (installDecoded rid pool).Ends m answer m') :
    SameFile m m' ∧ ((∃ e, answer = .error e) ∧ SameBodies m m' ∨ answer = .ok () ∧
      ∃ bytes, (recompile (m.bodyOf rid).stub pool).result = .ok bytes ∧
        m'.bodyOf rid =
          (m.bodyOf rid).replace (recompile (m.bodyOf rid).stub pool).state (some bytes) ∧
        ∀ other ∈ m.rows.methodRids, other ≠ rid → m'.bodyOf other = m.bodyOf other) := by
  unfold installDecoded at h
  obtain ⟨b, looked, hbody, h⟩ := Action.ends_bind.mp h
  obtain ⟨rfl, hfile, hsame⟩ := ends_body hsize hrid hbody
  obtain ⟨⟨compiled, pool'⟩, _, hown, h⟩ := Action.ends_bind.mp h
  obtain ⟨hcompiled, rfl⟩ := Action.ends_onOwn.mp hown
  rw [Prod.mk.injEq] at hcompiled
  obtain ⟨hcompiled, rfl⟩ := hcompiled
  cases compiled with
  | error e =>
    simp only at h
    split at h
    · obtain ⟨rfl, rfl⟩ := Action.ends_pure.mp h
      exact ⟨hfile, Or.inl ⟨⟨e, rfl⟩, hsame⟩⟩
    · exact absurd h Action.ends_fail
  | ok bytes =>
    simp only at h
    obtain ⟨_, _, hinstall, h⟩ := Action.ends_bind.mp h
    obtain ⟨rfl, rfl⟩ := Action.ends_pure.mp h
    have hrows : rid ∈ looked.rows.methodRids := by rwa [hfile.rows]
    obtain ⟨b, hupdate, hfile', hself, hothers⟩ :=
      ends_onBody (by rw [hfile.size, hfile.rows, hsize]) hrows hinstall
    have hb := Action.ends_update.mp hupdate
    refine ⟨hfile.trans hfile', Or.inr ⟨rfl, bytes, hcompiled, ?_, ?_⟩⟩
    · rw [bodyOf_of_known hself, ← hb, hsame rid hrid]
    · intro other hother hne
      rw [hothers other (by rwa [hfile.rows]) hne, hsame other hother]

/-- Restoring code into a method does that, or it answers why not and changes no body. -/
theorem ends_restoreMethod {address : RuntimeAddress} {blob : Bytes} {result : RestoreResult}
    (hsize : m.bodies.size = m.rows.methods.size) (hrid : rid ∈ m.rows.methodRids)
    (h : (restoreMethod address blob rid).Ends m result m') :
    SameFile m m' ∧ result.rva = address.rva ∧
      (result.isRestored = false ∧ SameBodies m m' ∨
        result.isRestored = true ∧ Restores m m' rid blob) := by
  unfold restoreMethod at h
  obtain ⟨_, _, hread, h⟩ := Action.ends_bind.mp h
  obtain ⟨rfl, rfl⟩ := Action.ends_read.mp hread
  simp only at h
  split at h
  · obtain ⟨rfl, rfl⟩ := Action.ends_pure.mp h
    exact ⟨.refl m, rfl, Or.inl ⟨rfl, fun _ _ => rfl⟩⟩
  rename_i hfilled
  split at h
  · obtain ⟨rfl, rfl⟩ := Action.ends_pure.mp h
    exact ⟨.refl m, rfl, Or.inl ⟨rfl, fun _ _ => rfl⟩⟩
  rename_i pool hdecode
  obtain ⟨answer, _, hinstall, h⟩ := Action.ends_bind.mp h
  obtain ⟨hfile, hanswer⟩ := ends_installDecoded hsize hrid hinstall
  rcases hanswer with ⟨⟨e, rfl⟩, hsame⟩ | ⟨rfl, bytes, hcompiled, hself, hothers⟩
  · obtain ⟨rfl, rfl⟩ := Action.ends_pure.mp h
    exact ⟨hfile, rfl, Or.inl ⟨rfl, hsame⟩⟩
  · obtain ⟨rfl, rfl⟩ := Action.ends_pure.mp h
    exact ⟨hfile, rfl, Or.inr ⟨rfl, by simpa using hfilled,
      ⟨pool, bytes, hdecode, hcompiled, hself⟩, hothers⟩⟩

/-- Restoring an entry puts its code into the one method with the RVA of its key, or it answers why
not and changes no body. -/
theorem ends_restoreEntry {base bias : Int} {entry : CacheEntry} {result : RestoreResult}
    (hsize : m.bodies.size = m.rows.methods.size)
    (h : (restoreEntry (.ofRows m.rows.methodTable) base bias entry).Ends m result m') :
    SameFile m m' ∧ (result.isRestored = false ∧ SameBodies m m' ∨
      result.isRestored = true ∧ result.rva ≠ 0 ∧ ∃ rid ∈ m.rows.methodRids,
        m.rows.rva rid = result.rva ∧
        (∀ other ∈ m.rows.methodRids, m.rows.rva other = result.rva → other = rid) ∧
        Restores m m' rid entry.blob) := by
  unfold restoreEntry at h
  obtain ⟨_, _, hread, h⟩ := Action.ends_bind.mp h
  obtain ⟨rfl, rfl⟩ := Action.ends_read.mp hread
  simp only at h
  split at h
  · obtain ⟨rfl, rfl⟩ := Action.ends_pure.mp h
    exact ⟨.refl m, Or.inl ⟨rfl, fun _ _ => rfl⟩⟩
  split at h
  · obtain ⟨rfl, rfl⟩ := Action.ends_pure.mp h
    exact ⟨.refl m, Or.inl ⟨rfl, fun _ _ => rfl⟩⟩
  split at h
  · obtain ⟨rfl, rfl⟩ := Action.ends_pure.mp h
    exact ⟨.refl m, Or.inl ⟨rfl, fun _ _ => rfl⟩⟩
  · exact absurd h Action.ends_fail
  · obtain ⟨rfl, rfl⟩ := Action.ends_pure.mp h
    exact ⟨.refl m, Or.inl ⟨rfl, fun _ _ => rfl⟩⟩
  · rename_i row hresolve
    obtain ⟨hne, hrid, hrva, honly⟩ := ModuleRows.resolve_eq_some hresolve
    obtain ⟨hfile, hresult, hanswer⟩ := ends_restoreMethod hsize hrid h
    rw [← hresult] at hne hrva honly
    refine ⟨hfile, ?_⟩
    rcases hanswer with hno | ⟨hyes, hrestores⟩
    · exact Or.inl hno
    · exact Or.inr ⟨hyes, hne, row.rid, hrid, hrva, honly, hrestores⟩

/-! ### What is answered -/

/-- Looking at a body always answers. -/
theorem exists_ends_body (hsize : m.bodies.size = m.rows.methods.size)
    (hrid : rid ∈ m.rows.methodRids) : ∃ looked, (body rid).Ends m (m.bodyOf rid) looked := by
  suffices hends : ∃ b looked, (body rid).Ends m b looked by
    obtain ⟨b, looked, h⟩ := hends
    exact ⟨looked, (ends_body hsize hrid h).1 ▸ h⟩
  have hkeep : ∀ b, ∃ b' looked, Action.Ends (do Action.update (·.keepBody rid b); return b) m b'
      looked := fun b => ⟨b, m.keepBody rid b, rfl, rfl⟩
  unfold body
  simp only [Action.ends_bind, Action.ends_read]
  cases hknown : m.knownBody? rid with
  | some b => exact ⟨b, m, m, m, ⟨rfl, rfl⟩, by simp only [hknown]; exact ⟨rfl, rfl⟩⟩
  | none =>
    by_cases hz : m.rows.rva rid = 0
    · obtain ⟨b, looked, h⟩ := hkeep {}
      refine ⟨b, looked, m, m, ⟨rfl, rfl⟩, ?_⟩
      simp only [hknown, if_pos hz]
      exact Action.ends_bind.mpr ⟨_, m, ⟨rfl, rfl⟩, h⟩
    · cases hstub : m.readStub rid with
      | ok stub =>
        obtain ⟨b, looked, h⟩ := hkeep { stub }
        refine ⟨b, looked, m, m, ⟨rfl, rfl⟩, ?_⟩
        simp only [hknown, if_neg hz, hstub]
        exact Action.ends_bind.mpr ⟨_, m, ⟨rfl, rfl⟩, h⟩
      | error e =>
        obtain ⟨b, looked, h⟩ := hkeep {}
        refine ⟨b, looked, m, m, ⟨rfl, rfl⟩, ?_⟩
        simp only [hknown, if_neg hz, hstub]
        exact Action.ends_bind.mpr ⟨(), m, ⟨rfl, rfl⟩, Action.ends_bind.mpr ⟨_, m, ⟨rfl, rfl⟩, h⟩⟩

/-- Whether decoded code is installed is decided by compiling it behind the stub. -/
theorem result_installDecoded (pool : Pool) (hsize : m.bodies.size = m.rows.methods.size)
    (hrid : rid ∈ m.rows.methodRids) : (installDecoded rid pool m).result =
      match (recompile (m.bodyOf rid).stub pool).result with
      | .ok _ => .ok (.ok ())
      | .error e => if e.isReported then .ok (.error e) else .error e := by
  obtain ⟨looked, hlooked⟩ := exists_ends_body hsize hrid
  obtain ⟨-, hfile, -⟩ := ends_body hsize hrid hlooked
  have hown : (Action.onOwn pool (recompile (m.bodyOf rid).stub)).Ends looked
      ((recompile (m.bodyOf rid).stub pool).result, (recompile (m.bodyOf rid).stub pool).state)
      looked := ⟨rfl, rfl⟩
  unfold installDecoded
  rw [Action.result_bind_of_ends hlooked, Action.result_bind_of_ends hown]
  cases (recompile (m.bodyOf rid).stub pool).result with
  | error e =>
    simp only
    split <;> rfl
  | ok bytes =>
    obtain ⟨looked', hlooked'⟩ := exists_ends_body
      (by rw [hfile.size, hfile.rows, hsize]) (by rwa [hfile.rows] : rid ∈ looked.rows.methodRids)
    have hinstall : (installCode rid (recompile (m.bodyOf rid).stub pool).state
        (some bytes)).Ends looked () _ :=
      Action.ends_bind.mpr ⟨_, _, hlooked', Action.ends_within.mpr ⟨_, ⟨rfl, rfl⟩, rfl⟩⟩
    simp only
    rw [Action.result_bind_of_ends hinstall]
    rfl

/-- What restoring code answers depends on the file and on the stub of the method. -/
theorem result_restoreMethod_congr {address : RuntimeAddress} {blob : Bytes}
    (hsize : m.bodies.size = m.rows.methods.size) (hrid : rid ∈ m.rows.methodRids)
    (hfile : SameFile m m') (hstub : (m'.bodyOf rid).stub = (m.bodyOf rid).stub) :
    (restoreMethod address blob rid m').result = (restoreMethod address blob rid m).result := by
  unfold restoreMethod decodeFor
  rw [Action.read_bind_apply, Action.read_bind_apply, hfile.rows, hfile.scope_eq]
  simp only
  split
  · rfl
  cases decode m.scope (m.rows.methodName rid) blob with
  | error e => rfl
  | ok pool =>
    refine Action.result_bind_congr ?_ fun answer t t' => ?_
    · rw [result_installDecoded _ hsize hrid, result_installDecoded _
        (by rw [hfile.size, hfile.rows, hsize]) (by rwa [hfile.rows]), hstub]
    · split <;> rfl

/-- What is answered for an entry is the same in all states of a module that have the same stubs. -/
theorem result_restoreEntry_congr {base bias : Int} {entry : CacheEntry}
    (hsize : m.bodies.size = m.rows.methods.size) (hfile : SameFile m m')
    (hstubs : ∀ rid ∈ m.rows.methodRids, (m'.bodyOf rid).stub = (m.bodyOf rid).stub) :
    (restoreEntry (.ofRows m.rows.methodTable) base bias entry m').result =
      (restoreEntry (.ofRows m.rows.methodTable) base bias entry m).result := by
  unfold restoreEntry
  rw [Action.read_bind_apply, Action.read_bind_apply, hfile.rows]
  simp only
  split
  · rfl
  split
  · rfl
  cases hresolve : (MethodIndex.ofRows m.rows.methodTable).resolve m.rows.resolve?
      (RuntimeAddress.mk entry.key base bias).rva with
  | error e => cases e <;> rfl
  | ok found =>
    cases found with
    | none => rfl
    | some row =>
      have hrid := (ModuleRows.resolve_eq_some hresolve).2.1
      exact result_restoreMethod_congr hsize hrid hfile (hstubs row.rid hrid)

end CilRestore.Module

namespace CilRestore

/-! ### Harvesting -/

namespace Workspace

theorem keeps_onHost {α : Type} (x : Action RecordedHost α) : Action.Keeps (onHost x) module_ := by
  refine Action.keeps_bind Action.keeps_read fun w => ?_
  split
  · exact Action.keeps_fail _
  · exact Action.keeps_within fun _ _ => rfl

end Workspace

namespace Restorer

/-- The module of the workspace that a restorer works on. -/
def module_ (both : Restorer × Workspace) : Module := both.2.module_

theorem keeps_onBench {α : Type} {x : Action Workspace α} (hx : Action.Keeps x Workspace.module_) :
    Action.Keeps (onBench x) module_ := hx.within (fun _ _ => rfl) fun _ => rfl

theorem keeps_ofItem {σ γ : Type} {f : σ → γ} (item : CacheItem) :
    Action.Keeps (CacheEntry.ofItem item) f := by
  refine Action.keeps_bind (Action.keeps_ofExcept _) fun arrays => ?_
  split
  · exact Action.keeps_bind (Action.keeps_say _) fun _ => Action.keeps_pure _
  · split
    · simp only
      split
      · exact Action.keeps_bind (Action.keeps_say _) fun _ => Action.keeps_pure _
      · exact Action.keeps_pure _
    · simp only
      split
      · exact Action.keeps_bind (Action.keeps_say _) fun _ => Action.keeps_fail _
      · exact Action.keeps_fail _

/-- Reading the cache and the base leaves alone what the host does and what they are not part of. -/
theorem keeps_reading {σ γ : Type} {f : Restorer × σ → γ} {host : Host (Restorer × σ)}
    (hcache : ∀ typeName fieldName, Action.Keeps (host.cache typeName fieldName) f)
    (hbase : Action.Keeps host.base f)
    (hentries : ∀ s entries, f ({ s.1 with entries }, s.2) = f s)
    (hnew : ∀ s base, f ({ s.1 with base }, s.2) = f s) (typeName fieldName : Item) :
    Action.Keeps (do
      let entries ← CacheEntry.harvest host typeName fieldName
      change fun r => { r with entries }
      let base ← host.base
      change fun r => { r with base }) f := by
  refine Action.keeps_bind ?_ fun entries => ?_
  · refine Action.keeps_bind (hcache typeName fieldName) fun items => ?_
    refine Action.keeps_bind (Action.keeps_mapM keeps_ofItem items) fun entries => ?_
    exact Action.keeps_bind (Action.keeps_say _) fun _ => Action.keeps_pure _
  · refine Action.keeps_bind (Action.keeps_update fun s => hentries s entries) fun _ => ?_
    exact Action.keeps_bind hbase fun base => Action.keeps_update fun s => hnew s base

/-- Requiring a stage changes nothing. -/
theorem ends_require {σ : Type} {stage : Stage} {s s' : Restorer × σ} {u : Unit}
    (h : (require stage).Ends s u s') : s = s' := by
  unfold require at h
  obtain ⟨_, _, hread, h⟩ := Action.ends_bind.mp h
  obtain ⟨rfl, rfl⟩ := Action.ends_read.mp hread
  split at h
  · exact absurd h Action.ends_fail
  · exact (Action.ends_pure.mp h).2

/-- Harvesting answers the entries that the restorer then has, and leaves the module alone. -/
theorem ends_harvest {index : MethodIndex} {s s' : Restorer × Workspace}
    {entries : List CacheEntry} (h : (harvest (Workspace.bench index)).Ends s entries s') :
    s'.1.entries = entries ∧ s'.2.module_ = s.2.module_ := by
  have hread : Action.Keeps (readHost (Workspace.bench index)) module_ := by
    refine Action.keeps_bind Action.keeps_read fun both => ?_
    refine Action.keeps_bind (keeps_onBench (Workspace.keeps_onHost _)) fun _ => ?_
    refine Action.Keeps.andFinally ?_ (keeps_onBench (Workspace.keeps_onHost _))
    exact keeps_reading (fun _ _ => keeps_onBench (Workspace.keeps_onHost _))
      (keeps_onBench (Workspace.keeps_onHost _)) (fun _ _ => rfl) (fun _ _ => rfl) _ _
  unfold harvest at h
  obtain ⟨_, s1, hrequire, h⟩ := Action.ends_bind.mp h
  obtain ⟨_, s2, hharvest, h⟩ := Action.ends_bind.mp h
  simp only [Action.ends_bind, Action.ends_read, Action.ends_say, change, Action.ends_update,
    Action.ends_pure] at h
  obtain ⟨_, _, ⟨rfl, rfl⟩, _, _, rfl, _, _, rfl, rfl, rfl⟩ := h
  refine ⟨rfl, ?_⟩
  have hstate := ends_require hrequire
  subst hstate
  have hkept : s2.2.module_ = s.2.module_ := hread.of_ends hharvest
  exact hkept

end Restorer

/-! ### Restoring a cache -/

namespace Module

/-- The code of the last entry that was reported restored for a method: one whose key stands for the
RVA of the method. -/
def lastRestored (m : Module) (done : List (CacheEntry × RestoreResult)) (rid : Nat) :
    Option Bytes :=
  (done.reverse.find? fun entry => entry.2.isRestored && entry.2.rva = m.rows.rva rid).map
    (·.1.blob)

/-- One more entry is the last one for the method that it was restored into. -/
theorem lastRestored_concat (m : Module) (done : List (CacheEntry × RestoreResult))
    (entry : CacheEntry) (result : RestoreResult) (rid : Nat) :
    m.lastRestored (done ++ [(entry, result)]) rid =
      if result.isRestored ∧ result.rva = m.rows.rva rid then some entry.blob
      else m.lastRestored done rid := by
  rw [lastRestored, List.reverse_append, List.reverse_singleton, List.singleton_append,
    List.find?_cons]
  by_cases h : result.isRestored ∧ result.rva = m.rows.rva rid
  · rw [if_pos h]
    simp [h.1, h.2]
  · rw [if_neg h]
    split
    · rename_i htrue
      simp only [Bool.and_eq_true, decide_eq_true_eq] at htrue
      exact absurd htrue h
    · rfl

/-- A method has the body that code compiles to behind its stub, and no other method has its RVA. -/
structure HasRestored (start m : Module) (rid : Nat) (blob : Bytes) : Prop where
  /-- There is code. -/
  filled : blob ≠ []
  /-- It is in the body. -/
  installed : Installed start m rid blob
  /-- The RVA is one of a body. -/
  rva_ne : start.rows.rva rid ≠ 0
  /-- No other method has it. -/
  only : ∀ other ∈ start.rows.methodRids, start.rows.rva other = start.rows.rva rid → other = rid

/-- The body is to be written. -/
theorem HasRestored.isModified {start : Module} {blob : Bytes}
    (h : HasRestored start m rid blob) : (m.bodyOf rid).isModified = true := by
  obtain ⟨_, _, -, -, hself⟩ := h.installed
  rw [hself]
  rfl

/-- The stub stays. -/
theorem HasRestored.stub_eq {start : Module} {blob : Bytes} (h : HasRestored start m rid blob) :
    (m.bodyOf rid).stub = (start.bodyOf rid).stub := by
  obtain ⟨_, _, -, -, hself⟩ := h.installed
  rw [hself]
  rfl

/-- What a module has become when entries were restored into it: each method has the body of the
last one, and one without any has the body that it had. -/
structure Follows (start m : Module) (done : List (CacheEntry × RestoreResult)) : Prop where
  /-- The file is the same. -/
  file : SameFile start m
  /-- Methods without restored entries have the bodies they had. -/
  untouched : ∀ rid ∈ start.rows.methodRids, start.lastRestored done rid = none →
    m.bodyOf rid = start.bodyOf rid
  /-- The others have those of the last restored entries. -/
  restored : ∀ rid ∈ start.rows.methodRids, ∀ blob, start.lastRestored done rid = some blob →
    HasRestored start m rid blob

variable {start : Module} {done : List (CacheEntry × RestoreResult)}

theorem Follows.refl (m : Module) : Follows m m [] :=
  ⟨.refl m, fun _ _ _ => rfl, fun _ _ _ hl => by cases hl⟩

/-- Restoring never changes a stub. -/
theorem Follows.stub_eq (h : Follows start m done) (hrid : rid ∈ start.rows.methodRids) :
    (m.bodyOf rid).stub = (start.bodyOf rid).stub := by
  cases hl : start.lastRestored done rid with
  | none => rw [h.untouched rid hrid hl]
  | some blob => exact (h.restored rid hrid blob hl).stub_eq

/-- One more entry keeps that. -/
theorem Follows.step (h : Follows start m done)
    (hsize : start.bodies.size = start.rows.methods.size) {base bias : Int} {entry : CacheEntry}
    {result : RestoreResult}
    (hstep : (restoreEntry (.ofRows start.rows.methodTable) base bias entry).Ends m result m') :
    Follows start m' (done ++ [(entry, result)]) := by
  have hfile := h.file
  rw [← hfile.rows] at hstep
  obtain ⟨hfile', hanswer⟩ := ends_restoreEntry (by rw [hfile.size, hfile.rows, hsize]) hstep
  rw [SameBodies, hfile.rows] at hanswer
  rcases hanswer with ⟨hno, hsame⟩ | ⟨hyes, hne, restoredRid, hrestored, hrva, honly, hrestores⟩
  · have hlast : ∀ rid, start.lastRestored (done ++ [(entry, result)]) rid =
        start.lastRestored done rid := by
      intro rid
      rw [lastRestored_concat, if_neg (by simp [hno])]
    refine ⟨hfile.trans hfile', ?_, ?_⟩
    · intro rid hrid hl
      rw [hsame rid hrid, h.untouched rid hrid (by rwa [← hlast])]
    · intro rid hrid blob hl
      obtain ⟨hfilled, hinstalled, hrva, honly⟩ := h.restored rid hrid blob (by rwa [← hlast])
      rw [Installed, ← hsame rid hrid] at hinstalled
      exact ⟨hfilled, hinstalled, hrva, honly⟩
  · obtain ⟨hfilled, ⟨pool, bytes, hdecode, hcompiled, hself⟩, hothers⟩ := hrestores
    rw [hfile.rows] at hothers hdecode
    rw [hfile.scope_eq] at hdecode
    have hlast : ∀ rid ∈ start.rows.methodRids, rid ≠ restoredRid →
        start.lastRestored (done ++ [(entry, result)]) rid = start.lastRestored done rid := by
      intro rid hrid hne
      rw [lastRestored_concat, if_neg fun hc => hne (honly rid hrid hc.2.symm)]
    have hlastSelf : start.lastRestored (done ++ [(entry, result)]) restoredRid =
        some entry.blob := by
      rw [lastRestored_concat, if_pos ⟨hyes, hrva.symm⟩]
    refine ⟨hfile.trans hfile', ?_, ?_⟩
    · intro rid hrid hl
      have hother : rid ≠ restoredRid := by
        rintro rfl
        rw [hlastSelf] at hl
        cases hl
      rw [hothers rid hrid hother, h.untouched rid hrid (by rwa [← hlast rid hrid hother])]
    · intro rid hrid blob hl
      by_cases hother : rid = restoredRid
      · subst hother
        rw [hlastSelf, Option.some.injEq] at hl
        subst hl
        -- A body is replaced but for its stub, which is the one at the start.
        have hstub := h.stub_eq hrid
        rw [MethodBody.replace, hstub] at hself
        rw [hstub] at hcompiled
        refine ⟨hfilled, ⟨pool, bytes, hdecode, hcompiled, hself⟩, by rw [hrva]; exact hne, ?_⟩
        exact fun other ho hsame => honly other ho (hsame.trans hrva)
      · obtain ⟨hfilled, hinstalled, hrva, honly⟩ :=
          h.restored rid hrid blob (by rwa [← hlast rid hrid hother])
        rw [Installed, ← hothers rid hrid hother] at hinstalled
        exact ⟨hfilled, hinstalled, hrva, honly⟩

/-- What a module that was opened has become when entries were restored into it. -/
structure Carries (opened m : Module) (done : List (CacheEntry × RestoreResult)) : Prop
    extends Follows opened m done where
  /-- At the start the methods had the bodies of the file. -/
  fresh : ∀ rid ∈ opened.rows.methodRids, opened.bodyOf rid = { stub := opened.stubOf rid }

variable {opened : Module}

theorem Carries.stub_eq (h : Carries opened m done) (hrid : rid ∈ opened.rows.methodRids) :
    (m.bodyOf rid).stub = opened.stubOf rid := by
  rw [h.toFollows.stub_eq hrid, h.fresh rid hrid]

/-- The bodies to be written are those that entries were restored into. -/
theorem Carries.isModified_eq (h : Carries opened m done) (hrid : rid ∈ opened.rows.methodRids) :
    (m.bodyOf rid).isModified = (opened.lastRestored done rid).isSome := by
  cases hl : opened.lastRestored done rid with
  | none => rw [h.untouched rid hrid hl, h.fresh rid hrid, Option.isSome_none]
  | some blob => rw [(h.restored rid hrid blob hl).isModified, Option.isSome_some]

/-- The compiled body is known. -/
theorem Carries.compiled (h : Carries opened m done) (hrid : rid ∈ opened.rows.methodRids)
    {blob : Bytes} (hl : opened.lastRestored done rid = some blob) : ∃ pool bytes,
      decode opened.scope (opened.rows.methodName rid) blob = .ok pool ∧
      (recompile (opened.stubOf rid) pool).result = .ok bytes ∧
      (m.bodyOf rid).compiled = some bytes := by
  obtain ⟨pool, bytes, hdecode, hcompiled, hself⟩ := (h.restored rid hrid blob hl).installed
  rw [h.fresh rid hrid] at hcompiled
  exact ⟨pool, bytes, hdecode, hcompiled, by rw [hself]; rfl⟩

/-- The answer for an entry: what restoring it into a module as it was at the start answers. -/
def Answers (start : Module) (base : Int) (bias : Item) (entry : CacheEntry)
    (result : RestoreResult) : Prop :=
  ∃ whole, bias.biasAt (entry.key - base) = .ok (some whole) ∧
    (restoreEntry (.ofRows start.rows.methodTable) base whole entry start).result = .ok result

/-- An entry has one answer. -/
theorem Answers.unique {base : Int} {bias : Item} {entry : CacheEntry}
    {result other : RestoreResult} (h : Answers start base bias entry result)
    (h' : Answers start base bias entry other) : result = other := by
  obtain ⟨whole, hbias, hresult⟩ := h
  obtain ⟨whole', hbias', hother⟩ := h'
  rw [hbias, Except.ok.injEq, Option.some.injEq] at hbias'
  subst hbias'
  rwa [hresult, Except.ok.injEq] at hother

/-- That is also what is answered when other entries were restored before. -/
theorem Follows.result_restoreEntry (h : Follows start m done)
    (hsize : start.bodies.size = start.rows.methods.size) (base bias : Int) (entry : CacheEntry) :
    (restoreEntry (.ofRows start.rows.methodTable) base bias entry m).result =
      (restoreEntry (.ofRows start.rows.methodTable) base bias entry start).result :=
  result_restoreEntry_congr hsize h.file fun _ => h.stub_eq

end Module

namespace Restorer

section restore

variable {start : Module} {base : Int} {bias : Item} {entries : List CacheEntry}
  {done : List (CacheEntry × RestoreResult)} {s s' : Restorer × Workspace}
  {results : List RestoreResult}

/-- Restoring entries one after the other answers one result for each, which is what is answered for
it at the start, and the module then follows from what it was by the entries. -/
theorem ends_restoreAll {u : Unit} (hsize : start.bodies.size = start.rows.methods.size)
    (hfollows : Module.Follows start s.2.module_ done)
    (h : (restoreAll (Workspace.bench (.ofRows start.rows.methodTable)) base bias entries).Ends
      s u s') :
    ∃ results, s'.1.results = s.1.results ++ results ∧
      List.Forall₂ (start.Answers base bias) entries results ∧
      Module.Follows start s'.2.module_ (done ++ entries.zip results) := by
  induction entries generalizing s done with
  | nil =>
    obtain ⟨-, rfl⟩ := Action.ends_pure.mp h
    exact ⟨[], by simp, .nil, by simpa using hfollows⟩
  | cons entry entries ih =>
    unfold restoreAll at h
    obtain ⟨answer, _, hbias, h⟩ := Action.ends_bind.mp h
    obtain ⟨hbias, rfl⟩ := Action.ends_ofExcept.mp hbias
    split at h
    · exact absurd h Action.ends_fail
    rename_i whole hwhole
    obtain ⟨result, s1, hbench, h⟩ := Action.ends_bind.mp h
    obtain ⟨w1, hmodule, rfl⟩ := Action.ends_within.mp hbench
    obtain ⟨m1, hentry, rfl⟩ := Action.ends_within.mp hmodule
    have hstep := hfollows.step hsize hentry
    have hanswer : start.Answers base bias entry result :=
      ⟨whole, hwhole, (hfollows.result_restoreEntry hsize base whole entry).symm.trans hentry.1⟩
    simp only at h
    split at h
    · obtain ⟨_, _, hfail, -⟩ := Action.ends_bind.mp h
      exact absurd hfail Action.ends_fail
    · obtain ⟨_, _, hsay, h⟩ := Action.ends_bind.mp h
      obtain ⟨_, _, hchange, h⟩ := Action.ends_bind.mp h
      have hsaid := Action.ends_say.mp hsay
      have hchanged := Action.ends_update.mp hchange
      subst hsaid
      subst hchanged
      obtain ⟨results, hresults, hanswers, hfollowed⟩ := ih hstep h
      refine ⟨result :: results, ?_, .cons hanswer hanswers, ?_⟩
      · rw [hresults]
        simp
      · rw [List.zip_cons_cons, ← List.singleton_append, ← List.append_assoc]
        exact hfollowed

/-- Entries for which something is answered are restored, when the bias is a whole number. -/
theorem exists_ends_restoreAll (hsize : start.bodies.size = start.rows.methods.size)
    (hfollows : Module.Follows start s.2.module_ done) (hbias : bias.isReal = false)
    (hanswers : ∀ entry ∈ entries, ∃ result, start.Answers base bias entry result) :
    ∃ s', (restoreAll (Workspace.bench (.ofRows start.rows.methodTable)) base bias entries).Ends
      s () s' := by
  induction entries generalizing s done with
  | nil => exact ⟨s, rfl, rfl⟩
  | cons entry entries ih =>
    rw [List.forall_mem_cons] at hanswers
    obtain ⟨⟨result, whole, hwhole, hresult⟩, hanswers⟩ := hanswers
    rw [← hfollows.result_restoreEntry hsize] at hresult
    have hentry : (Module.restoreEntry (.ofRows start.rows.methodTable) base whole entry).Ends
      s.2.module_ result _ := ⟨hresult, rfl⟩
    obtain ⟨s', hrest⟩ := ih (s := ({ s.1 with results := s.1.results ++ [result] },
      { s.2 with module_ := _ })) (hfollows.step hsize hentry) hanswers
    refine ⟨s', ?_⟩
    unfold restoreAll
    refine Action.ends_bind.mpr ⟨_, s, ⟨hwhole, rfl⟩, ?_⟩
    simp only [hbias]
    refine Action.ends_bind.mpr ⟨result, _, Action.ends_within.mpr
      ⟨_, Action.ends_within.mpr ⟨_, hentry, rfl⟩, rfl⟩, ?_⟩
    exact Action.ends_bind.mpr ⟨(), _, ⟨rfl, rfl⟩, Action.ends_bind.mpr ⟨(), _, ⟨rfl, rfl⟩, hrest⟩⟩

/-- Restoring answers one result for each entry, which is what is answered for it at the start, and
the module then follows from what it was by the entries. -/
theorem ends_restore_follows (hsize : start.bodies.size = start.rows.methods.size)
    (hfollows : Module.Follows start s.2.module_ [])
    (h : (restore (Workspace.bench (.ofRows start.rows.methodTable))).Ends s results s') :
    List.Forall₂ (start.Answers s.1.base s.1.bias) s.1.entries results ∧
      Module.Follows start s'.2.module_ (s.1.entries.zip results) := by
  unfold restore at h
  obtain ⟨_, s1, hrequire, h⟩ := Action.ends_bind.mp h
  have hstate := ends_require hrequire
  subst hstate
  obtain ⟨_, _, hchange, h⟩ := Action.ends_bind.mp h
  have hchanged := Action.ends_update.mp hchange
  subst hchanged
  obtain ⟨_, _, hread, h⟩ := Action.ends_bind.mp h
  obtain ⟨rfl, rfl⟩ := Action.ends_read.mp hread
  obtain ⟨_, s2, hall, h⟩ := Action.ends_bind.mp h
  have hstart : Module.Follows start
      (({ s.1 with results := [] }, s.2) : Restorer × Workspace).2.module_ [] := hfollows
  obtain ⟨found, hresults, hanswers, hfollowed⟩ := ends_restoreAll hsize hstart hall
  simp only [Action.ends_bind, Action.ends_read, Action.ends_say, change, Action.ends_update,
    Action.ends_pure] at h
  obtain ⟨_, _, ⟨rfl, rfl⟩, _, _, rfl, _, _, rfl, rfl, rfl⟩ := h
  rw [List.nil_append] at hresults hfollowed
  rw [hresults]
  exact ⟨hanswers, hfollowed⟩

/-- A harvested cache is restored when something is answered for each entry and the bias is a whole
number. -/
theorem exists_ends_restore (hsize : start.bodies.size = start.rows.methods.size)
    (hfollows : Module.Follows start s.2.module_ []) (hstage : s.1.stage = .harvested)
    (hbias : s.1.bias.isReal = false)
    (hanswers : ∀ entry ∈ s.1.entries, ∃ result,
      start.Answers s.1.base s.1.bias entry result) :
    ∃ results s', (restore (Workspace.bench (.ofRows start.rows.methodTable))).Ends s results
      s' := by
  obtain ⟨s2, hall⟩ := exists_ends_restoreAll (s := ({ s.1 with results := [] }, s.2)) hsize
    hfollows hbias hanswers
  have hrequire : (require (σ := Workspace) .harvested).Ends s () s := by
    unfold require
    refine Action.ends_bind.mpr ⟨s, s, ⟨rfl, rfl⟩, ?_⟩
    rw [if_neg (by simp [hstage])]
    exact ⟨rfl, rfl⟩
  refine ⟨s2.1.results, ({ s2.1 with stage := .restored }, s2.2), ?_⟩
  unfold restore
  refine Action.ends_bind.mpr ⟨(), s, hrequire, Action.ends_bind.mpr ⟨(), _, ⟨rfl, rfl⟩, ?_⟩⟩
  refine Action.ends_bind.mpr ⟨_, _, ⟨rfl, rfl⟩, Action.ends_bind.mpr ⟨(), s2, hall, ?_⟩⟩
  exact ⟨rfl, rfl⟩

/-- Restoring answers one result for each entry, and the module then carries the entries. -/
theorem ends_restore {opened : Module} (hsize : opened.bodies.size = opened.rows.methods.size)
    (hcarries : Module.Carries opened s.2.module_ [])
    (h : (restore (Workspace.bench (.ofRows opened.rows.methodTable))).Ends s results s') :
    results.length = s.1.entries.length ∧
      Module.Carries opened s'.2.module_ (s.1.entries.zip results) := by
  obtain ⟨hanswers, hfollows⟩ := ends_restore_follows hsize hcarries.toFollows h
  exact ⟨hanswers.length_eq.symm, hfollows, hcarries.fresh⟩

end restore

end Restorer

end CilRestore
