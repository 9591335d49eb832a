import Mathlib.Data.List.Forall2

/-!
# Steps that may fail

A step that may fail, taken before another one and over a list. Taken over a list it succeeds when
it does for each member, and otherwise the first member for which it fails decides.
-/

namespace CilRestore.Sequence

-- Sums of numbers are those of the core library, whatever else is imported.
attribute [local instance (high)] Zero.ofOfNat0

variable {ε α β : Type}

theorem ok_bind (a : α) (f : α → Except ε β) : (Except.ok a : Except ε α) >>= f = f a := rfl

/-- A computation in two steps succeeds when both do. -/
theorem bind_eq_ok {x : Except ε α} {f : α → Except ε β} {b : β} :
    x >>= f = .ok b ↔ ∃ a, x = .ok a ∧ f a = .ok b := by
  cases x <;> simp [bind, Except.bind]

/-- It fails with the first step or with the second. -/
theorem bind_eq_error {x : Except ε α} {f : α → Except ε β} {e : ε} :
    x >>= f = .error e ↔ x = .error e ∨ ∃ a, x = .ok a ∧ f a = .error e := by
  cases x <;> simp [bind, Except.bind]

theorem toOption_eq_some {x : Except ε α} {a : α} : x.toOption = some a ↔ x = .ok a := by
  cases x <;> simp [Except.toOption]

theorem map_eq_ok {x : Except ε α} {f : α → β} {b : β} :
    f <$> x = .ok b ↔ ∃ a, x = .ok a ∧ f a = b := by
  cases x <;> simp [Functor.map, Except.map]

theorem map_eq_error {x : Except ε α} {f : α → β} {e : ε} :
    f <$> x = .error e ↔ x = .error e := by
  cases x <;> simp [Functor.map, Except.map]

/-- Computing all members of a list succeeds when each of them does. -/
theorem mapM_eq_ok {f : α → Except ε β} {l : List α} {r : List β} :
    l.mapM f = .ok r ↔ List.Forall₂ (fun a b => f a = .ok b) l r := by
  induction l generalizing r with
  | nil => cases r <;> simp [pure, Except.pure]
  | cons a l ih =>
    rw [List.mapM_cons, bind_eq_ok]
    constructor
    · rintro ⟨b, hb, h⟩
      obtain ⟨bs, hbs, h⟩ := bind_eq_ok.mp h
      simp only [pure, Except.pure, Except.ok.injEq] at h
      subst h
      exact .cons hb (ih.mp hbs)
    · intro h
      cases h with
      | cons hb hbs => exact ⟨_, hb, bind_eq_ok.mpr ⟨_, ih.mpr hbs, rfl⟩⟩

/-- It fails with the first member that does. -/
theorem mapM_eq_error {f : α → Except ε β} {l : List α} {e : ε} (h : l.mapM f = .error e) :
    ∃ before a after, l = before ++ a :: after ∧ f a = .error e ∧
      ∀ b ∈ before, ∃ c, f b = .ok c := by
  induction l with
  | nil => simp [pure, Except.pure] at h
  | cons a l ih =>
    rw [List.mapM_cons] at h
    rcases bind_eq_error.mp h with ha | ⟨b, hb, h⟩
    · exact ⟨[], a, l, rfl, ha, by simp⟩
    · rcases bind_eq_error.mp h with hl | ⟨bs, _, h⟩
      · obtain ⟨before, x, after, rfl, hx, hall⟩ := ih hl
        refine ⟨a :: before, x, after, rfl, hx, ?_⟩
        intro y hy
        rcases List.mem_cons.mp hy with rfl | hy
        · exact ⟨b, hb⟩
        · exact hall y hy
      · simp [pure, Except.pure] at h

/-- What there is for each member of a list can be listed. -/
theorem exists_forall₂ {R : α → β → Prop} {l : List α} (h : ∀ a ∈ l, ∃ b, R a b) :
    ∃ r, List.Forall₂ R l r := by
  induction l with
  | nil => exact ⟨[], .nil⟩
  | cons a l ih =>
    obtain ⟨b, hb⟩ := h a (by simp)
    obtain ⟨r, hr⟩ := ih fun x hx => h x (by simp [hx])
    exact ⟨b :: r, .cons hb hr⟩

/-- Members at one place of two related lists are related. -/
theorem getElem?_of_forall₂ {R : α → β → Prop} {l : List α} {r : List β}
    (h : List.Forall₂ R l r) {place : Nat} {a : α} (ha : l[place]? = some a) :
    ∃ b, r[place]? = some b ∧ R a b := by
  induction h generalizing place with
  | nil => simp at ha
  | cons head tail ih =>
    cases place with
    | zero =>
      simp only [List.getElem?_cons_zero, Option.some.injEq] at ha
      subst ha
      exact ⟨_, by simp, head⟩
    | succ place =>
      obtain ⟨b, hb, hr⟩ := ih (by simpa using ha)
      exact ⟨b, by simpa using hb, hr⟩

/-- Each member of a list has a counterpart in a related one. -/
theorem exists_mem_of_forall₂ {R : α → β → Prop} {l : List α} {r : List β}
    (h : List.Forall₂ R l r) {a : α} (ha : a ∈ l) : ∃ b ∈ r, R a b := by
  obtain ⟨place, hplace⟩ := List.mem_iff_getElem?.mp ha
  obtain ⟨b, hb, hr⟩ := getElem?_of_forall₂ h hplace
  exact ⟨b, List.mem_of_getElem? hb, hr⟩

/-- Lists whose members agree in pairs under two maps are made the same list by them. -/
theorem map_eq_map_of_forall₂ {γ : Type} {f : α → γ} {g : β → γ} {l : List α} {r : List β}
    (h : List.Forall₂ (fun a b => f a = g b) l r) : l.map f = r.map g := by
  induction h with
  | nil => rfl
  | cons hfirst _ ih => rw [List.map_cons, List.map_cons, hfirst, ih]

/-- Members that a partial step keeps are related to what it makes of them, when it keeps just the
members with a property and relates each of these. -/
theorem forall₂_filter_filterMap {R : α → β → Prop} {keeps : α → Bool} {f : α → Option β}
    {l : List α} (hkept : ∀ a ∈ l, keeps a → ∃ b, f a = some b ∧ R a b)
    (hdropped : ∀ a ∈ l, keeps a = false → f a = none) :
    List.Forall₂ R (l.filter keeps) (l.filterMap f) := by
  induction l with
  | nil => exact .nil
  | cons a l ih =>
    have htail := ih (fun b hb => hkept b (List.mem_cons_of_mem a hb))
      fun b hb => hdropped b (List.mem_cons_of_mem a hb)
    cases hk : keeps a with
    | true =>
      obtain ⟨b, hb, hr⟩ := hkept a List.mem_cons_self hk
      rw [List.filter_cons_of_pos hk, List.filterMap_cons_some hb]
      exact .cons hr htail
    | false =>
      rw [List.filter_cons_of_neg (by simp [hk]),
        List.filterMap_cons_none (hdropped a List.mem_cons_self hk)]
      exact htail

/-- Parts laid end to end are as long as their lengths add up to. -/
theorem length_flatten_of_forall₂ {f : α → Nat} {l : List α} {parts : List (List β)}
    (h : List.Forall₂ (fun a part => part.length = f a) l parts) :
    parts.flatten.length = (l.map f).sum := by
  induction h with
  | nil => rfl
  | cons hfirst _ ih =>
    rw [List.flatten_cons, List.length_append, hfirst, ih, List.map_cons, List.sum_cons]

end CilRestore.Sequence
