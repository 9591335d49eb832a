import CilRestore.Action
import CilRestore.Proofs.Sequence

/-!
# How actions end

An action that answers, and the state that it then leaves (`Action.Ends`). What a composed action
answers is said by what its parts answer, one lemma for each way of composing them. In the same way
it is said that an action leaves a part of the state alone, however it ends (`Action.Keeps`).
-/

namespace CilRestore.Action

variable {σ τ α β : Type}

instance : LawfulMonad (Action σ) := by
  refine LawfulMonad.mk' _ (fun x => ?_) (fun a f => ?_) fun x f g => ?_
  · funext s
    simp only [Functor.map, Action.bind]
    rcases x s with ⟨_ | a, t, lines⟩
    · rfl
    · simp only [Function.comp, id, Action.pure, List.append_nil]
  · funext s
    simp only [bind, Action.bind, pure, Action.pure, List.nil_append]
  · funext s
    simp only [bind, Action.bind]
    rcases x s with ⟨_ | a, t, lines⟩
    · rfl
    · simp only
      rcases f a t with ⟨_ | b, t', lines'⟩
      · rfl
      · simp only [List.append_assoc]

/-- An action answers, and this is the state that it leaves. -/
def Ends (x : Action σ α) (s : σ) (a : α) (s' : σ) : Prop :=
  (x s).result = .ok a ∧ (x s).state = s'

variable {x : Action σ α} {s s' : σ} {a : α}

/-- Two actions one after the other answer when both do. -/
theorem ends_bind {f : α → Action σ β} {b : β} :
    Ends (x >>= f) s b s' ↔ ∃ a t, Ends x s a t ∧ Ends (f a) t b s' := by
  constructor
  · rintro ⟨hr, hs⟩
    cases hx : (x s).result with
    | error e => simp only [bind, Action.bind, hx, reduceCtorEq] at hr
    | ok a =>
      simp only [bind, Action.bind, hx] at hr hs
      exact ⟨a, (x s).state, ⟨hx, rfl⟩, hr, hs⟩
  · rintro ⟨a, t, ⟨hx, rfl⟩, hr, hs⟩
    refine ⟨?_, ?_⟩ <;> simp only [bind, Action.bind, hx]
    · exact hr
    · exact hs

/-- An action is followed by the next one in the state that it leaves. -/
theorem result_bind_of_ends {f : α → Action σ β} (h : Ends x s a s') :
    ((x >>= f) s).result = (f a s').result := by
  obtain ⟨hr, rfl⟩ := h
  simp only [bind, Action.bind, hr]

/-- What follows an action that answers runs in the state that it leaves. -/
theorem bind_apply {lines : List String} (h : x s = ⟨.ok a, s', lines⟩) (f : α → Action σ β) :
    (x >>= f) s = ⟨(f a s').result, (f a s').state, lines ++ (f a s').lines⟩ := by
  simp only [bind, Action.bind, h]

/-- Nothing follows an action that breaks off. -/
theorem bind_apply_error {e : Fault} {lines : List String} (h : x s = ⟨.error e, s', lines⟩)
    (f : α → Action σ β) : (x >>= f) s = ⟨.error e, s', lines⟩ := by
  simp only [bind, Action.bind, h]

/-- Changing the answer changes neither the state reached nor the lines printed. -/
theorem map_apply (f : α → β) (x : Action σ α) (s : σ) :
    (f <$> x) s = ⟨(x s).result.map f, (x s).state, (x s).lines⟩ := by
  simp only [Functor.map, Action.bind]
  cases (x s).result with
  | error e => rfl
  | ok a => simp [Action.pure, Except.map]

@[simp] theorem pure_apply (a : α) (s : σ) : (pure a : Action σ α) s = ⟨.ok a, s, []⟩ := rfl

@[simp] theorem read_bind_apply (f : σ → Action σ α) (s : σ) : (read >>= f) s = f s s := rfl

@[simp] theorem update_bind_apply (g : σ → σ) (f : Unit → Action σ α) (s : σ) :
    (update g >>= f) s = f () (g s) := rfl

@[simp] theorem ofExcept_ok_bind (a : α) (f : α → Action σ β) (s : σ) :
    (ofExcept (.ok a) >>= f) s = f a s := rfl

/-- The last action is taken in the state that the first one leaves, however that ends. -/
theorem state_andFinally (x : Action σ α) (last : Action σ Unit) (s : σ) :
    (andFinally x last s).state = (last (x s).state).state := by
  simp only [andFinally, attempt, bind, Action.bind]
  split <;> rfl

/-- Two actions one after the other answer what they do in other states when each of them does. -/
theorem result_bind_congr {y : Action σ α} {f g : α → Action σ β} {t : σ}
    (hx : (x s).result = (y t).result)
    (hf : ∀ a s' t', (f a s').result = (g a t').result) :
    ((x >>= f) s).result = ((y >>= g) t).result := by
  cases hr : (y t).result with
  | error e => simp only [bind, Action.bind, hx, hr]
  | ok a =>
    simp only [bind, Action.bind, hx, hr]
    exact hf a _ _

@[simp] theorem ends_pure {b : α} : Ends (pure b) s a s' ↔ b = a ∧ s = s' := by
  simp only [Ends, pure, Action.pure, Except.ok.injEq]

@[simp] theorem ends_read {t : σ} : Ends read s t s' ↔ s = t ∧ s = s' := by
  simp only [Ends, read, Except.ok.injEq]

@[simp] theorem ends_update {f : σ → σ} {u : Unit} : Ends (update f) s u s' ↔ f s = s' := by
  simp only [Ends, update, true_and]

@[simp] theorem ends_fail {e : Fault} : ¬ Ends (fail e) s a s' := by
  simp only [Ends, fail, reduceCtorEq, false_and, not_false_eq_true]

@[simp] theorem ends_say {line : String} {u : Unit} : Ends (say line) s u s' ↔ s = s' := by
  simp only [Ends, say, true_and]

@[simp] theorem ends_sayAll {lines : List String} {u : Unit} :
    Ends (sayAll lines) s u s' ↔ s = s' := by
  simp only [Ends, sayAll, true_and]

@[simp] theorem ends_ofExcept {y : Except Fault α} :
    Ends (ofExcept y) s a s' ↔ y = .ok a ∧ s = s' := Iff.rfl

/-- An action on a part of the state answers when it does on the part alone. -/
theorem ends_within {get : τ → σ} {put : σ → τ → τ} {t t' : τ} :
    Ends (within get put x) t a t' ↔ ∃ s, Ends x (get t) a s ∧ put s t = t' := by
  simp only [Ends, within]
  constructor
  · rintro ⟨hr, hs⟩
    exact ⟨_, ⟨hr, rfl⟩, hs⟩
  · rintro ⟨s, ⟨hr, rfl⟩, rfl⟩
    exact ⟨hr, rfl⟩

/-- An action on a state of its own always answers. -/
@[simp] theorem ends_onOwn {y : Action τ β} {t : τ} {answer : Except Fault β × τ} :
    Ends (onOwn t y) s answer s' ↔ ((y t).result, (y t).state) = answer ∧ s = s' := by
  simp only [Ends, onOwn, Except.ok.injEq]

/-- An action that answers ends with what it answers. -/
theorem ends_getD {x : Action σ α} {s : σ} (h : (x s).result.toOption.isSome = true) (d : α) :
    Ends x s ((x s).result.toOption.getD d) (x s).state := by
  obtain ⟨a, ha⟩ := Option.isSome_iff_exists.mp h
  rw [ha, Option.getD_some]
  exact ⟨Sequence.toOption_eq_some.mp ha, rfl⟩

/-! ### What actions leave alone -/

/-- An action does not change what a function reads off the state, even if it fails. -/
def Keeps {γ : Type} (x : Action σ α) (f : σ → γ) : Prop := ∀ s, f (x s).state = f s

section keeps

variable {γ : Type} {f : σ → γ}

/-- What an action keeps is the same where it ends. -/
theorem Keeps.of_ends (h : Keeps x f) (he : Ends x s a s') : f s' = f s := by
  rw [← he.2, h s]

/-- What follows an action and leaves something alone leaves it as the action did. -/
theorem state_bind_of_keeps {g : α → Action σ β} (hg : ∀ a, Keeps (g a) f) (s : σ) :
    f ((x >>= g) s).state = f (x s).state := by
  simp only [bind, Action.bind]
  split
  · rfl
  · exact hg _ _

/-- What both of two actions keep is kept by one after the other. -/
theorem keeps_bind {g : α → Action σ β} (hx : Keeps x f) (hg : ∀ a, Keeps (g a) f) :
    Keeps (x >>= g) f := fun s => (state_bind_of_keeps hg s).trans (hx s)

theorem keeps_pure (a : α) : Keeps (pure a) f := fun _ => rfl

theorem keeps_read : Keeps read f := fun _ => rfl

theorem keeps_say (line : String) : Keeps (say line) f := fun _ => rfl

theorem keeps_fail (e : Fault) : Keeps (fail e : Action σ α) f := fun _ => rfl

theorem keeps_ofExcept (y : Except Fault α) : Keeps (ofExcept y) f := fun _ => rfl

/-- A change keeps what it does not touch. -/
theorem keeps_update {change : σ → σ} (h : ∀ s, f (change s) = f s) : Keeps (update change) f := h

/-- An action on another part of the state leaves a part alone. -/
theorem keeps_within {get : τ → σ} {put : σ → τ → τ} {g : τ → γ}
    (h : ∀ s t, g (put s t) = g t) : Keeps (within get put x) g := fun t => h _ t

/-- An action on a part of the state leaves alone what it leaves alone there. -/
theorem Keeps.within {get : τ → σ} {put : σ → τ → τ} {g : τ → γ} (hx : Keeps x f)
    (hput : ∀ s t, g (put s t) = f s) (hget : ∀ t, f (get t) = g t) :
    Keeps (within get put x) g := fun t => by
  simp only [Action.within, hput, hx (get t), hget]

/-- A last action that keeps the same keeps it also behind a failure. -/
theorem Keeps.andFinally {last : Action σ Unit} (hx : Keeps x f) (hl : Keeps last f) :
    Keeps (andFinally x last) f :=
  keeps_bind hx fun _ => keeps_bind hl fun _ => keeps_ofExcept _

/-- What each action of a list keeps is kept by all of them. -/
theorem keeps_mapM {g : β → Action σ α} (hg : ∀ b, Keeps (g b) f) (l : List β) :
    Keeps (l.mapM g) f := by
  have hloop : ∀ (l : List β) (done : List α), Keeps (List.mapM.loop g l done) f := by
    intro l
    induction l with
    | nil => exact fun done => keeps_pure _
    | cons b l ih => exact fun done => keeps_bind (hg b) fun _ => ih _
  exact hloop l []

end keeps

/-! ### What actions do on a part of the state -/

/-- An action does on a part of its state what another one does on a state of that kind. -/
def Mirrors (get : τ → σ) (x : Action τ α) (y : Action σ α) : Prop :=
  ∀ t, y (get t) = ⟨(x t).result, get (x t).state, (x t).lines⟩

section mirrors

variable {get : τ → σ} {y : Action σ α} {x : Action τ α}

/-- Actions that mirror each other go on to actions that do. -/
theorem Mirrors.bind {f : α → Action τ β} {g : α → Action σ β} (hx : Mirrors get x y)
    (hf : ∀ a, Mirrors get (f a) (g a)) : Mirrors get (x >>= f) (y >>= g) := by
  intro t
  simp only [Bind.bind, Action.bind, hx t]
  cases (x t).result with
  | error e => rfl
  | ok a => simp only [hf a (x t).state]

/-- What goes on from the larger state goes on alike from its part. -/
theorem mirrors_read_bind {f : τ → Action τ α} {g : σ → Action σ α}
    (h : ∀ t, Mirrors get (f t) (g (get t))) : Mirrors get (read >>= f) (read >>= g) := by
  intro t
  simp only [bind, Action.bind, read, h t t]

theorem mirrors_pure (a : α) : Mirrors get (pure a) (pure a) := fun _ => rfl

theorem mirrors_fail (e : Fault) : Mirrors get (fail e : Action τ α) (fail e) := fun _ => rfl

theorem mirrors_say (line : String) : Mirrors get (say line) (say line) := fun _ => rfl

theorem mirrors_ofExcept (z : Except Fault α) : Mirrors get (ofExcept z) (ofExcept z) :=
  fun _ => rfl

/-- A change of the larger state mirrors one of its part. -/
theorem mirrors_update {f : τ → τ} {g : σ → σ} (h : ∀ t, get (f t) = g (get t)) :
    Mirrors get (update f) (update g) := by
  intro t
  simp only [update, h]

/-- Actions mirror each other with last actions that do. -/
theorem Mirrors.andFinally {last : Action τ Unit} {last' : Action σ Unit} (hx : Mirrors get x y)
    (hl : Mirrors get last last') : Mirrors get (andFinally x last) (andFinally y last') := by
  have hattempt : Mirrors get (attempt x) (attempt y) := fun t => by simp only [attempt, hx t]
  exact hattempt.bind fun result => hl.bind fun _ => mirrors_ofExcept result

/-- Lists of actions mirror each other where their members do. -/
theorem mirrors_mapM {f : β → Action τ α} {g : β → Action σ α} (h : ∀ b, Mirrors get (f b) (g b))
    (l : List β) : Mirrors get (l.mapM f) (l.mapM g) := by
  induction l with
  | nil =>
    rw [List.mapM_nil, List.mapM_nil]
    exact mirrors_pure _
  | cons b l ih =>
    rw [List.mapM_cons, List.mapM_cons]
    exact (h b).bind fun _ => ih.bind fun _ => mirrors_pure _

end mirrors

end CilRestore.Action
