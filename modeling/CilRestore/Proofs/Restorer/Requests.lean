import CilRestore.Proofs.Restorer.Stages

/-!
# What a restorer asks for

A bench that counts what it is asked for (`Bench.counted`) does otherwise what it did without
counting. Whatever is called, and whatever fails, the host lets go of the module as often as it
loaded it, and the module is written once at most, after the entries were put back.
-/

namespace CilRestore

variable {σ α : Type}

/-! ### Counting -/

/-- How often a bench was asked for what. -/
structure Tally where
  /-- The host loaded the module. -/
  loads : Nat := 0
  /-- The host was to let go of it. -/
  closes : Nat := 0
  /-- The module was to be written. -/
  writes : Nat := 0
  /-- The module was written. -/
  written : Nat := 0
  deriving DecidableEq, Repr

namespace Tally

/-- The host was to load the module. -/
def load (answered : Bool) (t : Tally) : Tally :=
  if answered then { t with loads := t.loads + 1 } else t

/-- The host was to let go of the module. -/
def close (_ : Bool) (t : Tally) : Tally := { t with closes := t.closes + 1 }

/-- The module was to be written. -/
def write (answered : Bool) (t : Tally) : Tally :=
  { t with writes := t.writes + 1, written := if answered then t.written + 1 else t.written }

end Tally

/-- An action that is counted with how it ended. -/
def Action.counted (count : Bool → Tally → Tally) (x : Action σ α) : Action (σ × Tally) α :=
  fun s =>
    let done := x s.1
    ⟨done.result, (done.state, count done.result.isOk s.2), done.lines⟩

/-- A bench that counts how often the module is loaded, let go of and written. -/
def Bench.counted (bench : Bench σ) : Bench (σ × Tally) where
  host :=
    { load := bench.host.load.counted Tally.load
      close := bench.host.close.counted Tally.close
      base := bench.host.base.counted fun _ t => t
      cache := fun typeName fieldName =>
        (bench.host.cache typeName fieldName).counted fun _ t => t }
  restoreEntry base bias entry := (bench.restoreEntry base bias entry).counted fun _ t => t
  write path := (bench.write path).counted Tally.write

namespace Restorer

/-- What the bench of a restorer counted. -/
def tally (s : Restorer × (σ × Tally)) : Tally := s.2.2

variable {bench : Bench σ} {s s' : Restorer × (σ × Tally)}

/-! ### Counting changes nothing else -/

/-- The state without what was counted. -/
def uncounted (s : Restorer × (σ × Tally)) : Restorer × σ := (s.1, s.2.1)

theorem mirrors_onBench (count : Bool → Tally → Tally) (x : Action σ α) :
    Action.Mirrors uncounted (onBench (x.counted count)) (onBench x) := fun _ => rfl

theorem mirrors_change (f : Restorer → Restorer) :
    Action.Mirrors (uncounted (σ := σ)) (change f) (change f) := Action.mirrors_update fun _ => rfl

theorem mirrors_require (stage : Stage) :
    Action.Mirrors (uncounted (σ := σ)) (require stage) (require stage) := by
  intro s
  simp only [require, bind, Action.bind, Action.read, uncounted]
  split <;> rfl

theorem mirrors_ofItem {σ τ : Type} {get : τ → σ} (item : CacheItem) :
    Action.Mirrors get (CacheEntry.ofItem item) (CacheEntry.ofItem item) := by
  refine (Action.mirrors_ofExcept _).bind fun arrays => ?_
  split
  · exact (Action.mirrors_say _).bind fun _ => Action.mirrors_pure _
  · rename_i name blob rest
    -- What is said does not depend on whether there are bytes.
    cases blob with
    | some blob =>
      simp only
      split
      · exact (Action.mirrors_say _).bind fun _ => Action.mirrors_pure _
      · exact Action.mirrors_pure _
    | none =>
      simp only
      split
      · exact (Action.mirrors_say _).bind fun _ => Action.mirrors_fail _
      · exact Action.mirrors_fail _

/-- Counting the calls of the host does not change how it is read. -/
theorem mirrors_readHost : Action.Mirrors uncounted (readHost bench.counted) (readHost bench) := by
  refine Action.mirrors_read_bind fun s => ?_
  refine (mirrors_onBench _ _).bind fun _ => Action.Mirrors.andFinally ?_ (mirrors_onBench _ _)
  refine Action.Mirrors.bind ?_ fun entries => ?_
  · refine (mirrors_onBench _ _).bind fun items => ?_
    refine (Action.mirrors_mapM mirrors_ofItem items).bind fun entries => ?_
    exact (Action.mirrors_say _).bind fun _ => Action.mirrors_pure _
  · exact (mirrors_change _).bind fun _ => (mirrors_onBench _ _).bind fun _ => mirrors_change _

/-- Nor how entries are restored. -/
theorem mirrors_restoreAll (base : Int) (bias : Item) (entries : List CacheEntry) :
    Action.Mirrors uncounted (restoreAll bench.counted base bias entries)
      (restoreAll bench base bias entries) := by
  induction entries with
  | nil => exact Action.mirrors_pure _
  | cons entry rest ih =>
    refine (Action.mirrors_ofExcept _).bind fun whole => ?_
    cases whole with
    | none => exact Action.mirrors_fail _
    | some whole =>
      refine (mirrors_onBench _ _).bind fun result => ?_
      have hrest : Action.Mirrors uncounted (do
            Action.say result.line
            change fun r => { r with results := r.results ++ [result] }
            restoreAll bench.counted base bias rest)
          (do
            Action.say result.line
            change fun r => { r with results := r.results ++ [result] }
            restoreAll bench base bias rest) :=
        (Action.mirrors_say _).bind fun _ => (mirrors_change _).bind fun _ => ih
      simp only
      split
      · exact (Action.mirrors_fail _).bind fun _ => hrest
      · exact hrest

/-- Nor what a step does. -/
theorem Step.mirrors_work (step : Step) :
    Action.Mirrors uncounted (step.work bench.counted) (step.work bench) := by
  cases step with
  | harvest =>
    exact mirrors_readHost.bind fun _ => Action.mirrors_read_bind fun _ => Action.mirrors_say _
  | restore =>
    refine (mirrors_change _).bind fun _ => Action.mirrors_read_bind fun _ => ?_
    refine (mirrors_restoreAll _ _ _).bind fun _ => Action.mirrors_read_bind fun _ => ?_
    exact Action.mirrors_say _
  | write path => exact (mirrors_onBench _ _).bind fun _ => Action.mirrors_say _

/-- A bench that counts does otherwise what it does without counting. -/
theorem Call.mirrors_perform (call : Call) :
    Action.Mirrors uncounted (call.perform bench.counted) (call.perform bench) := by
  rw [Call.perform_eq, Call.perform_eq]
  induction call.steps with
  | nil => exact Action.mirrors_pure _
  | cons step rest ih =>
    rw [List.forM_cons, List.forM_cons, Step.perform_eq, Step.perform_eq]
    refine Action.Mirrors.bind ?_ fun _ => ih
    exact (mirrors_require _).bind fun _ => step.mirrors_work.bind fun _ => mirrors_change _

/-! ### What each step counts -/

theorem keeps_onBench_counted (x : Action σ α) :
    Action.Keeps (onBench (x.counted fun _ t => t)) tally := fun _ => rfl

/-- While a host has the module loaded nothing is counted; it lets go of it when it loaded it. -/
theorem tally_during (bench : Bench σ) {host : Host (Restorer × (σ × Tally))}
    (hload : host.load = onBench bench.counted.host.load)
    (hclose : host.close = onBench bench.counted.host.close)
    {x : Action (Restorer × (σ × Tally)) α} (hx : Action.Keeps x tally)
    (s : Restorer × (σ × Tally)) :
    tally (Host.during host x s).state = tally s ∨
      tally (Host.during host x s).state =
        { tally s with loads := (tally s).loads + 1, closes := (tally s).closes + 1 } := by
  have hloaded : ∀ s, tally (host.load s).state = (tally s).load (host.load s).result.isOk := by
    rw [hload]
    exact fun _ => rfl
  have hclosed : ∀ s, tally (host.close s).state = (tally s).close (host.close s).result.isOk := by
    rw [hclose]
    exact fun _ => rfl
  simp only [Host.during, bind, Action.bind]
  cases hl : (host.load s).result with
  | error e =>
    left
    simp only
    rw [hloaded, hl]
    rfl
  | ok _ =>
    right
    simp only
    rw [Action.state_andFinally, hclosed, hx, hloaded, hl]
    rfl

/-- Harvesting loads the module and lets go of it, or neither. -/
theorem tally_work_harvest (bench : Bench σ) (s : Restorer × (σ × Tally)) :
    tally (Step.work bench.counted .harvest s).state = tally s ∨
      tally (Step.work bench.counted .harvest s).state =
        { tally s with loads := (tally s).loads + 1, closes := (tally s).closes + 1 } := by
  have hsaid : tally (Step.work bench.counted .harvest s).state =
      tally (readHost bench.counted s).state :=
    Action.state_bind_of_keeps (fun _ => Action.keeps_bind Action.keeps_read fun _ =>
      Action.keeps_say _) s
  rw [hsaid]
  exact tally_during bench rfl rfl (keeps_reading (fun _ _ => keeps_onBench_counted _)
    (keeps_onBench_counted _) (fun _ _ => rfl) (fun _ _ => rfl) _ _) s

/-- Putting entries back counts as nothing. -/
theorem keeps_work_restore (bench : Bench σ) :
    Action.Keeps (Step.work bench.counted .restore) tally := by
  refine Action.keeps_bind (Action.keeps_update fun _ => rfl) fun _ => ?_
  refine Action.keeps_bind Action.keeps_read fun _ => ?_
  refine Action.keeps_bind (keeps_restoreAll (fun _ _ _ => keeps_onBench_counted _) (fun _ _ => rfl)
    _ _ _) fun _ => ?_
  exact Action.keeps_bind Action.keeps_read fun _ => Action.keeps_say _

/-- Writing counts with how it ends. -/
theorem tally_work_write (path : String) (s : Restorer × (σ × Tally)) :
    tally (Step.work bench.counted (.write path) s).state =
      (tally s).write (Step.work bench.counted (.write path) s).result.isOk := by
  simp only [Step.work, bind, Action.bind]
  have hcounted : tally (onBench (bench.counted.write path) s).state =
      (tally s).write (onBench (bench.counted.write path) s).result.isOk := rfl
  cases hw : (onBench (bench.counted.write path) s).result <;> rw [hw] at hcounted <;>
    exact hcounted

/-! ### What holds at all times -/

/-- What a bench has counted fits the stage of the restorer. -/
structure IsTallied (s : Restorer × (σ × Tally)) : Prop where
  /-- The host let go of the module as often as it loaded it. -/
  closes_eq : (tally s).closes = (tally s).loads
  /-- The module was written once at most, and not before the last stage. -/
  written_le : (tally s).written ≤ if s.1.stage = .written then 1 else 0

/-- A step keeps what fits. -/
theorem IsTallied.perform (h : IsTallied s) (step : Step) :
    IsTallied (step.perform bench.counted s).state := by
  have hlawful : Taken.IsLawful ⟨step, s, step.perform bench.counted s⟩ := isLawful_perform step s
  by_cases hstage : s.1.stage = step.source
  · obtain ⟨hresult, hstate⟩ := perform_of_source bench.counted hstage
    have htally : tally (step.perform bench.counted s).state =
        tally (step.work bench.counted s).state := congrArg Prod.snd hstate
    have hnone : (tally s).written = 0 := by
      have hle := h.written_le
      rw [hstage] at hle
      cases step <;> exact Nat.le_zero.mp hle
    cases step with
    | harvest =>
      have hsame : (tally (Step.harvest.perform bench.counted s).state).closes =
          (tally (Step.harvest.perform bench.counted s).state).loads ∧
          (tally (Step.harvest.perform bench.counted s).state).written = 0 := by
        rw [htally]
        rcases tally_work_harvest bench s with hwork | hwork <;> rw [hwork]
        · exact ⟨h.closes_eq, hnone⟩
        · exact ⟨congrArg (· + 1) h.closes_eq, hnone⟩
      exact ⟨hsame.1, by rw [hsame.2]; exact Nat.zero_le _⟩
    | restore =>
      rw [keeps_work_restore bench s] at htally
      exact ⟨by rw [htally, h.closes_eq], by rw [htally, hnone]; exact Nat.zero_le _⟩
    | write path =>
      rw [tally_work_write, ← hresult] at htally
      refine ⟨by rw [htally]; exact h.closes_eq, ?_⟩
      cases hdone : ((Step.write path).perform bench.counted s).result with
      | error e =>
        rw [htally, hdone]
        exact Nat.le_trans (Nat.le_of_eq hnone) (Nat.zero_le _)
      | ok _ =>
        rw [htally, hdone, (hlawful.moved hdone).2]
        exact Nat.succ_le_succ (Nat.le_of_eq hnone)
  · rw [perform_of_ne hstage]
    exact h

/-- What fits at first fits at all times. -/
theorem Course.isTallied {steps : List (Taken (σ × Tally))} (h : Course bench.counted s steps s')
    (hs : IsTallied s) : IsTallied s' := by
  induction h with
  | done _ => exact hs
  | step step _ ih => exact ih (hs.perform step)

/-- Only a write that is taken in its stage counts as one. -/
theorem writes_perform {step : Step} (h : (tally (step.perform bench.counted s).state).writes ≠
    (tally s).writes) : s.1.stage = .restored ∧ ∃ path, step = .write path := by
  have hstage : s.1.stage = step.source := by
    by_contra hne
    rw [perform_of_ne hne] at h
    exact h rfl
  have htally : tally (step.perform bench.counted s).state =
      tally (step.work bench.counted s).state := congrArg Prod.snd (perform_of_source _ hstage).2
  rw [htally] at h
  cases step with
  | harvest =>
    rcases tally_work_harvest bench s with hwork | hwork <;> rw [hwork] at h <;>
      exact absurd rfl h
  | restore => exact absurd (by rw [keeps_work_restore bench s]) h
  | write path => exact ⟨hstage, path, rfl⟩

/-- Whatever is called of a restorer that was just made, and whatever its bench does, each call
takes its steps until one fails and ends as the last of them; one step goes on where the one before
it ended. A step takes the restorer from its source to its target or leaves its stage, and is
refused in another stage without a change. After each of them the host let go of the module as often
as it loaded it. The module is to be written only after the entries were put back, and it is written
once at most. Counting what is asked for changes nothing of this. -/
theorem history_isLawful (bench : Bench σ) (typeName fieldName bias : Item) (s : σ)
    (calls : List Call) :
    let start : Restorer × (σ × Tally) := ({ typeName, fieldName, bias }, (s, {}))
    (∀ call : Call, Action.Mirrors uncounted (call.perform bench.counted) (call.perform bench)) ∧
    (∀ (call : Call) (now : Restorer × (σ × Tally)),
      call.IsTakenAs (takeAll bench.counted call.steps now) (call.perform bench.counted now)) ∧
    Course bench.counted start (history bench.counted calls start)
      (stateAfter bench.counted calls start) ∧
    ∀ past t future, history bench.counted calls start = past ++ t :: future →
      t.IsLawful ∧ (tally t.after.state).closes = (tally t.after.state).loads ∧
      ((tally t.after.state).writes ≠ (tally t.before).writes → (∃ path, t.step = .write path) ∧
        ∃ earlier ∈ past, earlier.step = .restore ∧ earlier.IsCompleted) ∧
      (tally t.after.state).written ≤ 1 := by
  intro start
  have hcourse := course_history bench.counted calls start
  have hstart : IsTallied start := ⟨rfl, Nat.zero_le _⟩
  refine ⟨Call.mirrors_perform, fun call now => call.isTakenAs bench.counted now, hcourse,
    fun past t future hsplit => ?_⟩
  rw [hsplit] at hcourse
  obtain ⟨hpast, hafter⟩ := hcourse.split
  have hlawful : t.IsLawful := hcourse.isLawful (by simp)
  have htallied : IsTallied t.after.state := by
    rw [hafter]
    exact (hpast.isTallied hstart).perform t.step
  refine ⟨hlawful, htallied.closes_eq, fun hwrites => ?_, ?_⟩
  · rw [hafter] at hwrites
    obtain ⟨hstage, hstep⟩ := writes_perform hwrites
    exact ⟨hstep, hpast.exists_restore (Or.inl rfl) (Or.inl hstage)⟩
  · refine Nat.le_trans htallied.written_le ?_
    split <;> omega

/-- Answer the first, the fourth and the eleventh request with a failure. -/
def Sample.ask (a : α) : Action Nat α := fun asked =>
  ⟨if asked ∈ [0, 3, 10] then .error .badValue else .ok a, asked + 1, []⟩

/-- A bench with one entry in the cache. -/
def Sample.failing : Bench Nat where
  host :=
    { load := ask ()
      close := ask ()
      base := ask 0x400000
      cache := fun _ _ => ask [⟨0x402050, .ok [("code", some [0x2A])]⟩] }
  restoreEntry base bias entry :=
    ask { key := entry.key, rva := entry.key - base - bias, status := .restored }
  write _ := ask ()

/-- The module cannot be loaded at first, then its base is not known, then it cannot be written;
calls in the wrong stage stand between. -/
def Sample.calls : List Call :=
  [.take .restore, .take .harvest, .take .harvest, .run "out.exe", .take .harvest,
    .take (.write "out.exe"), .take (.write "out.exe")]

/-- A restorer that was just made. -/
def Sample.start : Restorer × (Nat × Tally) :=
  (⟨.nothing, .nothing, .integer 0, .loaded, [], 0, []⟩, (0, {}))

/-- The calls with their failures: loading fails, then the base, then writing, each is tried again,
and the module is written once. -/
theorem history_isLawful_of_failures :
    let steps := history Sample.failing.counted Sample.calls Sample.start
    steps.map (fun t => (t.after.state.1.stage, t.after.result.isOk)) =
      [(.loaded, false), (.loaded, false), (.loaded, false), (.harvested, true), (.restored, true),
        (.restored, false), (.restored, false), (.written, true), (.written, false)] ∧
    tally (stateAfter Sample.failing.counted Sample.calls Sample.start) = ⟨2, 2, 2, 1⟩ ∧
    ∃ past t future, steps = past ++ t :: future ∧ past.length = 7 ∧ t.IsLawful ∧
      (∃ earlier ∈ past, earlier.step = .restore ∧ earlier.IsCompleted) ∧
      (tally t.after.state).written ≤ 1 := by
  intro steps
  have hlength : steps.length = 9 := by decide +kernel
  have hcounts : steps[7]?.map (fun t => ((tally t.before).writes, (tally t.after.state).writes)) =
      some (1, 2) := by decide +kernel
  rw [List.getElem?_eq_getElem (by omega), Option.map_some, Option.some.injEq,
    Prod.mk.injEq] at hcounts
  have hsplit : steps = steps.take 7 ++ steps[7] :: steps.drop 8 := by
    rw [← List.drop_eq_getElem_cons, List.take_append_drop]
  obtain ⟨-, -, -, hsteps⟩ := history_isLawful Sample.failing .nothing .nothing (.integer 0) 0
    Sample.calls
  obtain ⟨hlawful, -, hwrites, hwritten⟩ := hsteps _ _ _ hsplit
  refine ⟨by decide +kernel, by decide +kernel, _, _, _, hsplit, by simp [hlength], hlawful,
    (hwrites ?_).2, hwritten⟩
  rw [hcounts.1, hcounts.2]
  decide

end Restorer

end CilRestore
