import CilRestore.Proofs.Restorer.Restoring

/-!
# The stages of a restorer

A restorer is taken from one stage to the next by a step that is made for that stage, and by nothing
else (`Restorer.Taken.IsLawful`). A step asks for its stage first, does its work and then moves on,
so it changes nothing in another stage and stays where it is when its work fails. Running a restorer
is taking the three steps one after the other until one fails, and whatever is called in whatever
order, what happens is a course of such steps.
-/

namespace CilRestore.Restorer

variable {σ : Type} {bench : Bench σ}

/-! ### Steps -/

/-- A step of a restorer. -/
inductive Step where
  /-- Read the cache. -/
  | harvest
  /-- Put the entries back. -/
  | restore
  /-- Write the module to a path. -/
  | write (path : String)

namespace Step

/-- The stage that a step is for. -/
def source : Step → Stage
  | harvest => .loaded
  | restore => .harvested
  | write _ => .restored

/-- The stage that a step leads to. -/
def target : Step → Stage
  | harvest => .harvested
  | restore => .restored
  | write _ => .written

/-- Take a step. -/
def perform (bench : Bench σ) : Step → Action (Restorer × σ) Unit
  | harvest => do let _ ← Restorer.harvest bench
  | restore => do let _ ← Restorer.restore bench
  | write path => Restorer.write bench path

/-- What a step does between asking for its stage and moving on. -/
def work (bench : Bench σ) : Step → Action (Restorer × σ) Unit
  | harvest => do
    readHost bench
    let r := (← Action.read).1
    Action.say ("module base " ++ Text.hex r.base)
  | restore => do
    change fun r => { r with results := [] }
    let r := (← Action.read).1
    restoreAll bench r.base r.bias r.entries
    let results := (← Action.read).1.results
    Action.say ("restored " ++ toString (results.countP RestoreResult.isRestored) ++ " of " ++
      toString results.length ++ " cache entries")
  | write path => do
    onBench (bench.write path)
    Action.say ("wrote " ++ path)

/-- A step asks for its stage, works and moves on. -/
theorem perform_eq (step : Step) :
    step.perform bench = (do
      require step.source
      step.work bench
      change fun r => { r with stage := step.target }) := by
  cases step with
  | harvest =>
    simp only [perform, work, Restorer.harvest, bind_assoc, pure_bind, bind_pure_unit, source,
      target]
  | restore =>
    simp only [perform, work, Restorer.restore, bind_assoc, pure_bind, bind_pure_unit, source,
      target]
  | write path => simp only [perform, work, Restorer.write, bind_assoc, source, target]

end Step

/-- In another stage, what requires a stage breaks off and changes nothing. -/
theorem require_of_ne {stage : Stage} {s : Restorer × σ} (h : s.1.stage ≠ stage)
    (x : Action (Restorer × σ) Unit) :
    (do require stage; x) s = ⟨.error .unsupported, s, []⟩ := by
  simp only [require, bind, Action.bind, Action.read, if_pos h, Action.fail, List.append_nil]

/-- In the stage that is asked for nothing stops an action. -/
theorem require_of_eq {stage : Stage} {s : Restorer × σ} (h : s.1.stage = stage)
    (x : Action (Restorer × σ) Unit) : (do require stage; x) s = x s := by
  simp only [require, bind, Action.bind, Action.read, h, ne_eq, not_true_eq_false, if_false, pure,
    Action.pure, List.nil_append]

/-- Restoring entries leaves alone what the bench does and the results are not part of. -/
theorem keeps_restoreAll {γ : Type} {f : Restorer × σ → γ}
    (hbench : ∀ base whole entry, Action.Keeps (onBench (bench.restoreEntry base whole entry)) f)
    (hresults : ∀ s results, f ({ s.1 with results }, s.2) = f s) (base : Int) (bias : Item)
    (entries : List CacheEntry) : Action.Keeps (restoreAll bench base bias entries) f := by
  induction entries with
  | nil => exact Action.keeps_pure _
  | cons entry rest ih =>
    refine Action.keeps_bind (Action.keeps_ofExcept _) fun whole => ?_
    split
    · exact Action.keeps_fail _
    · refine Action.keeps_bind (hbench _ _ _) fun result => ?_
      have hrest : Action.Keeps (do
          Action.say result.line
          change fun r => { r with results := r.results ++ [result] }
          restoreAll bench base bias rest) f :=
        Action.keeps_bind (Action.keeps_say _) fun _ =>
          Action.keeps_bind (Action.keeps_update fun s => hresults s _) fun _ => ih
      simp only
      split
      · exact Action.keeps_bind (Action.keeps_fail _) fun _ => hrest
      · exact hrest

/-- The work of a step does not move the restorer on. -/
theorem Step.keeps_work (bench : Bench σ) (step : Step) :
    Action.Keeps (step.work bench) fun both => both.1.stage := by
  have hbench : ∀ {α : Type} (x : Action σ α),
      Action.Keeps (onBench x) fun both : Restorer × σ => both.1.stage :=
    fun _ => Action.keeps_within fun _ _ => rfl
  cases step with
  | harvest =>
    refine Action.keeps_bind ?_ fun _ => Action.keeps_bind Action.keeps_read fun _ =>
      Action.keeps_say _
    refine Action.keeps_bind Action.keeps_read fun _ => Action.keeps_bind (hbench _) fun _ => ?_
    refine Action.Keeps.andFinally ?_ (hbench _)
    exact keeps_reading (fun _ _ => hbench _) (hbench _) (fun _ _ => rfl) (fun _ _ => rfl) _ _
  | restore =>
    refine Action.keeps_bind (Action.keeps_update fun _ => rfl) fun _ => ?_
    refine Action.keeps_bind Action.keeps_read fun _ => ?_
    refine Action.keeps_bind (keeps_restoreAll (fun _ _ _ => hbench _) (fun _ _ => rfl) _ _ _)
      fun _ => ?_
    exact Action.keeps_bind Action.keeps_read fun _ => Action.keeps_say _
  | write path => exact Action.keeps_bind (hbench _) fun _ => Action.keeps_say _

/-! ### Steps that were taken -/

/-- A step that was taken. -/
structure Taken (σ : Type) where
  /-- The step. -/
  step : Step
  /-- The state that it was taken in. -/
  before : Restorer × σ
  /-- What it left behind. -/
  after : Outcome (Restorer × σ) Unit

namespace Taken

/-- A step that was taken was completed. -/
def IsCompleted (t : Taken σ) : Prop := t.after.result = .ok ()

/-- A step takes the restorer from its source to its target or leaves it where it is. -/
structure IsLawful (t : Taken σ) : Prop where
  /-- In another stage it is refused, and nothing is done. -/
  refused : t.before.1.stage ≠ t.step.source → t.after = ⟨.error .unsupported, t.before, []⟩
  /-- When it is completed the restorer has come from its source to its target. -/
  moved : t.IsCompleted →
    t.before.1.stage = t.step.source ∧ t.after.state.1.stage = t.step.target
  /-- When it fails the restorer stays in its stage. -/
  stayed : ¬ t.IsCompleted → t.after.state.1.stage = t.before.1.stage

end Taken

/-- In another stage, a step is refused. -/
theorem perform_of_ne {step : Step} {s : Restorer × σ} (h : s.1.stage ≠ step.source) :
    step.perform bench s = ⟨.error .unsupported, s, []⟩ := by
  rw [Step.perform_eq, require_of_ne h]

/-- In its stage, a step ends as its work does, and beside the restorer leaves what that leaves. -/
theorem perform_of_source (bench : Bench σ) {step : Step} {s : Restorer × σ}
    (h : s.1.stage = step.source) :
    (step.perform bench s).result = (step.work bench s).result ∧
      (step.perform bench s).state.2 = (step.work bench s).state.2 := by
  rw [Step.perform_eq, require_of_eq h]
  simp only [bind, Action.bind]
  cases hwork : (step.work bench s).result <;> exact ⟨rfl, rfl⟩

/-- Every step is lawful, whatever the bench does. -/
theorem isLawful_perform (step : Step) (s : Restorer × σ) :
    Taken.IsLawful ⟨step, s, step.perform bench s⟩ := by
  by_cases hstage : s.1.stage = step.source
  · rw [Step.perform_eq, require_of_eq hstage]
    have hkept := step.keeps_work bench s
    simp only at hkept
    simp only [bind, Action.bind]
    cases hwork : (step.work bench s).result with
    | error e =>
      refine ⟨fun h => absurd hstage h, fun h => ?_, fun _ => hkept⟩
      rw [Taken.IsCompleted] at h
      cases h
    | ok _ => exact ⟨fun h => absurd hstage h, fun _ => ⟨hstage, rfl⟩, fun h => absurd rfl h⟩
  · rw [perform_of_ne hstage]
    refine ⟨fun _ => rfl, fun h => ?_, fun _ => rfl⟩
    rw [Taken.IsCompleted] at h
    cases h

/-! ### Courses of steps -/

/-- Steps that were taken one after the other, from a state to another one. -/
inductive Course (bench : Bench σ) : Restorer × σ → List (Taken σ) → Restorer × σ → Prop
  | done (s : Restorer × σ) : Course bench s [] s
  | step {s s' : Restorer × σ} {steps : List (Taken σ)} (step : Step)
      (h : Course bench (step.perform bench s).state steps s') :
      Course bench s (⟨step, s, step.perform bench s⟩ :: steps) s'

namespace Course

variable {s s' : Restorer × σ} {past future : List (Taken σ)}

/-- Courses follow each other. -/
theorem append {s'' : Restorer × σ} (h : Course bench s past s')
    (h' : Course bench s' future s'') : Course bench s (past ++ future) s'' := by
  induction h with
  | done _ => exact h'
  | step step _ ih => exact .step step (ih h')

/-- A course ends where its last step does. -/
theorem state_eq {t : Taken σ} (h : Course bench s past s') (ht : past.getLast? = some t) :
    s' = t.after.state := by
  induction h with
  | done _ => cases ht
  | @step s s' steps step h ih =>
    rw [List.getLast?_cons, Option.some.injEq] at ht
    cases hlast : steps.getLast? with
    | none =>
      rw [List.getLast?_eq_none_iff] at hlast
      subst hlast
      cases h
      rw [← ht]
      rfl
    | some last =>
      rw [hlast] at ht
      exact ih (hlast.trans (congrArg some ht))

/-- A course up to one of its steps, and the step. -/
theorem split {t : Taken σ} (h : Course bench s (past ++ t :: future) s') :
    Course bench s past t.before ∧ t.after = t.step.perform bench t.before := by
  induction past generalizing s with
  | nil =>
    cases h with
    | step step _ => exact ⟨.done s, rfl⟩
  | cons first past ih =>
    cases h with
    | step step h =>
      obtain ⟨hpast, ht⟩ := ih h
      exact ⟨.step step hpast, ht⟩

theorem isLawful (h : Course bench s past s') {t : Taken σ} (ht : t ∈ past) : t.IsLawful := by
  induction h with
  | done _ => cases ht
  | step step _ ih =>
    rcases List.mem_cons.mp ht with rfl | ht
    · exact isLawful_perform step _
    · exact ih ht

/-- Where nothing is restored at first and something is in the end, the entries were put back. -/
theorem exists_restore (h : Course bench s past s')
    (hs : s.1.stage = .loaded ∨ s.1.stage = .harvested)
    (hs' : s'.1.stage = .restored ∨ s'.1.stage = .written) :
    ∃ t ∈ past, t.step = .restore ∧ t.IsCompleted := by
  induction h with
  | done s => rcases hs with hs | hs <;> rw [hs] at hs' <;> simp at hs'
  | @step s s' steps step h ih =>
    have hlawful : Taken.IsLawful ⟨step, s, step.perform bench s⟩ := isLawful_perform step s
    by_cases hdone : Taken.IsCompleted ⟨step, s, step.perform bench s⟩
    · obtain ⟨hsource, htarget⟩ := hlawful.moved hdone
      cases step with
      | harvest =>
        obtain ⟨t, ht, hrestore⟩ := ih (Or.inr htarget) hs'
        exact ⟨t, List.mem_cons_of_mem _ ht, hrestore⟩
      | restore => exact ⟨_, List.mem_cons_self, rfl, hdone⟩
      | write path => rcases hs with hs | hs <;> cases hs.symm.trans hsource
    · have hstayed := hlawful.stayed hdone
      obtain ⟨t, ht, hrestore⟩ := ih (by rw [hstayed]; exact hs) hs'
      exact ⟨t, List.mem_cons_of_mem _ ht, hrestore⟩

end Course

/-! ### Calls -/

/-- A call of a restorer. -/
inductive Call where
  /-- Take one step. -/
  | take (step : Step)
  /-- Harvest, restore and write to a path. -/
  | run (path : String)

namespace Call

/-- Carry out a call. -/
def perform (bench : Bench σ) : Call → Action (Restorer × σ) Unit
  | take step => step.perform bench
  | run path => do let _ ← Restorer.run bench path

/-- The steps of a call. -/
def steps : Call → List Step
  | take step => [step]
  | run path => [.harvest, .restore, .write path]

end Call

/-- Take steps one after the other until one fails. -/
def takeAll (bench : Bench σ) : List Step → Restorer × σ → List (Taken σ)
  | [], _ => []
  | step :: rest, s =>
    let done := step.perform bench s
    ⟨step, s, done⟩ :: match done.result with
      | .ok _ => takeAll bench rest done.state
      | .error _ => []

/-- A call takes its steps one after the other. -/
theorem Call.perform_eq (call : Call) :
    call.perform bench = forM call.steps (Step.perform bench) := by
  cases call with
  | take step => simp only [perform, steps, List.forM_cons, List.forM_nil, bind_pure_unit]
  | run path =>
    simp only [perform, steps, List.forM_cons, List.forM_nil, bind_pure_unit, Step.perform,
      Restorer.run, bind_assoc, pure_bind]

/-- Steps that are taken until one fails are a course, and how they end is how the last one does. -/
theorem course_takeAll (bench : Bench σ) (steps : List Step) (s : Restorer × σ) :
    Course bench s (takeAll bench steps s) (forM steps (Step.perform bench) s).state ∧
      (forM steps (Step.perform bench) s).result =
        ((takeAll bench steps s).getLast?.elim (.ok ()) fun t => t.after.result) := by
  induction steps generalizing s with
  | nil => exact ⟨.done s, rfl⟩
  | cons step rest ih =>
    rw [List.forM_cons, takeAll]
    simp only [bind, Action.bind]
    cases hdone : (step.perform bench s).result with
    | error e => exact ⟨.step step (.done _), hdone.symm⟩
    | ok _ =>
      obtain ⟨hcourse, hresult⟩ := ih (step.perform bench s).state
      refine ⟨.step step hcourse, ?_⟩
      simp only
      rw [hresult, List.getLast?_cons]
      cases (takeAll bench rest (step.perform bench s).state).getLast? with
      | none => exact hdone.symm
      | some t => rfl

/-- Of the steps that are taken until one fails only the last one can fail; unless it does, none is
left out. -/
theorem takeAll_stops (bench : Bench σ) (steps : List Step) (s : Restorer × σ) :
    (takeAll bench steps s).map Taken.step <+: steps ∧
      (∀ t ∈ (takeAll bench steps s).dropLast, t.IsCompleted) ∧
      ((forM steps (Step.perform bench) s).result = .ok () →
        (takeAll bench steps s).map Taken.step = steps) := by
  induction steps generalizing s with
  | nil => exact ⟨List.prefix_rfl, fun _ ht => (List.not_mem_nil ht).elim, fun _ => rfl⟩
  | cons step rest ih =>
    rw [List.forM_cons, takeAll]
    simp only [bind, Action.bind]
    cases hdone : (step.perform bench s).result with
    | error e =>
      refine ⟨?_, fun _ ht => (List.not_mem_nil ht).elim, fun h => ?_⟩
      · exact List.cons_prefix_cons.mpr ⟨rfl, List.nil_prefix⟩
      · cases h
    | ok _ =>
      obtain ⟨hinit, hcompleted, hall⟩ := ih (step.perform bench s).state
      refine ⟨List.cons_prefix_cons.mpr ⟨rfl, hinit⟩, fun t ht => ?_, fun h => ?_⟩
      · simp only at ht
        cases htail : takeAll bench rest (step.perform bench s).state with
        | nil =>
          rw [htail] at ht
          cases ht
        | cons next later =>
          rw [htail, List.dropLast_cons_cons] at ht
          rcases List.mem_cons.mp ht with rfl | ht
          · exact hdone
          · exact hcompleted t (htail ▸ ht)
      · simp only
        rw [List.map_cons, hall h]

/-- How a call was carried out. -/
structure Call.IsTakenAs (call : Call) (steps : List (Taken σ))
    (done : Outcome (Restorer × σ) Unit) : Prop where
  /-- Its steps were taken, from the first one on. -/
  inOrder : steps.map Taken.step <+: call.steps
  /-- After a step that failed no other one was taken. -/
  completed : ∀ t ∈ steps.dropLast, t.IsCompleted
  /-- It ended as the last step did. -/
  last : ∃ t, steps.getLast? = some t ∧ done.result = t.after.result ∧ done.state = t.after.state
  /-- If it was completed then no step was left out. -/
  all : done.result = .ok () → steps.map Taken.step = call.steps

/-- A call takes its steps until one fails, and ends as the last of them does. -/
theorem Call.isTakenAs (bench : Bench σ) (call : Call) (s : Restorer × σ) :
    call.IsTakenAs (takeAll bench call.steps s) (call.perform bench s) := by
  obtain ⟨hcourse, hresult⟩ := course_takeAll bench call.steps s
  obtain ⟨horder, hcompleted, hall⟩ := takeAll_stops bench call.steps s
  rw [← call.perform_eq] at hcourse hresult hall
  have hne : takeAll bench call.steps s ≠ [] := by
    cases call <;> exact List.cons_ne_nil _ _
  have hlast := List.getLast?_eq_some_getLast hne
  refine ⟨horder, hcompleted, ⟨_, hlast, ?_, hcourse.state_eq hlast⟩, hall⟩
  rw [hresult, hlast]
  rfl

/-- The steps that are taken by calls one after the other. -/
def history (bench : Bench σ) : List Call → Restorer × σ → List (Taken σ)
  | [], _ => []
  | call :: rest, s =>
    takeAll bench call.steps s ++ history bench rest (call.perform bench s).state

/-- The state after calls one after the other. -/
def stateAfter (bench : Bench σ) (calls : List Call) (s : Restorer × σ) : Restorer × σ :=
  calls.foldl (fun s call => (call.perform bench s).state) s

/-- Whatever is called, what happens is a course of steps. -/
theorem course_history (bench : Bench σ) (calls : List Call) (s : Restorer × σ) :
    Course bench s (history bench calls s) (stateAfter bench calls s) := by
  induction calls generalizing s with
  | nil => exact .done s
  | cons call rest ih =>
    have hcall := (course_takeAll bench call.steps s).1
    rw [← call.perform_eq] at hcall
    exact hcall.append (ih _)

end CilRestore.Restorer
