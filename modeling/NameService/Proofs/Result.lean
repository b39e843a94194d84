import Mathlib.Data.List.Forall2

/-
  Chains of steps that can fail, taken apart and put together.

  A chain succeeds exactly if every step does (`bind_eq_ok`), and a list is
  converted exactly if every element is (`mapM_eq_ok`), or else fails as its first
  failing element does (`mapM_eq_error`). Two chains that differ in a function on
  their results are compared step by step (`bind_eq_map`). Lists are converted in the
  same way where a step gives no reason for its failure (`mapM_eq_some`).
-/

namespace NameService.Result

variable {ε α β γ δ : Type}

@[simp] theorem ok_bind (a : α) (f : α → Except ε β) : (Except.ok a >>= f) = f a := rfl

@[simp] theorem error_bind (e : ε) (f : α → Except ε β) :
    (Except.error e >>= f) = Except.error e := rfl

@[simp] theorem pure_eq_ok {a b : α} : (pure a : Except ε α) = .ok b ↔ a = b := by
  simp [pure, Except.pure]

@[simp] theorem throw_ne_ok (e : ε) (a : α) : (throw e : Except ε α) ≠ .ok a := by
  simp [throw, throwThe, MonadExceptOf.throw]

theorem bind_eq_ok {x : Except ε α} {f : α → Except ε β} {b : β} :
    (x >>= f) = .ok b ↔ ∃ a, x = .ok a ∧ f a = .ok b := by
  cases x with
  | error e => simp
  | ok a => simp

theorem map_eq_ok {x : Except ε α} {f : α → β} {b : β} :
    x.map f = .ok b ↔ ∃ a, x = .ok a ∧ f a = b := by
  cases x with
  | error e => simp [Except.map]
  | ok a => simp [Except.map]

theorem bind_eq_error {x : Except ε α} {f : α → Except ε β} {e : ε} :
    (x >>= f) = .error e ↔ x = .error e ∨ ∃ a, x = .ok a ∧ f a = .error e := by
  cases x with
  | error e' => simp
  | ok a => simp

/-- A step whose result is only wrapped up fails as the step does. -/
theorem bind_pure_eq_error {x : Except ε α} {f : α → β} {e : ε} :
    (x >>= fun a => pure (f a)) = .error e ↔ x = .error e := by
  cases x with
  | error e' => simp
  | ok a => simp [pure, Except.pure]

/-! ## Results under a function -/

/-- A chain commutes with a function on its results if its parts do. The second part need
only do so for what the first one gives. -/
theorem bind_eq_map {x : Except ε α} {y : Except ε β} {f : α → Except ε γ} {f' : β → Except ε δ}
    {g : α → β} {g' : γ → δ} (hx : y = x.map g)
    (hf : ∀ a, x = .ok a → f' (g a) = (f a).map g') : (y >>= f') = (x >>= f).map g' := by
  subst hx
  cases x with
  | error e => rfl
  | ok a => exact hf a rfl

/-- The same where the first part is shared. -/
theorem step_eq_map {x : Except ε α} {f : α → Except ε γ} {f' : α → Except ε δ} {g : γ → δ}
    (hf : ∀ a, f' a = (f a).map g) : (x >>= f') = (x >>= f).map g := by
  cases x with
  | error e => rfl
  | ok a => exact hf a

/-! ## Lists -/

theorem mapM_eq_ok {f : α → Except ε β} {xs : List α} {ys : List β} :
    xs.mapM f = .ok ys ↔ List.Forall₂ (fun x y => f x = .ok y) xs ys := by
  induction xs generalizing ys with
  | nil =>
    rw [List.mapM_nil, pure_eq_ok, List.forall₂_nil_left_iff, eq_comm]
  | cons x xs ih =>
    rw [List.mapM_cons, List.forall₂_cons_left_iff]
    simp only [bind_eq_ok, pure_eq_ok]
    constructor
    · rintro ⟨y, hy, ys, hys, rfl⟩
      exact ⟨y, ys, hy, ih.mp hys, rfl⟩
    · rintro ⟨y, ys, hy, hys, rfl⟩
      exact ⟨y, hy, ys, ih.mpr hys, rfl⟩

theorem mapM_eq_map {f : α → Except ε β} {f' : α → Except ε γ} {g : β → γ}
    (hf : ∀ a, f' a = (f a).map g) (as : List α) :
    as.mapM f' = (as.mapM f).map (List.map g) := by
  induction as with
  | nil => rfl
  | cons a as ih =>
    rw [List.mapM_cons, List.mapM_cons]
    exact bind_eq_map (hf a) fun _ _ => bind_eq_map ih fun _ _ => rfl

/-- A list fails to be converted because of the first element that fails. -/
theorem mapM_eq_error {f : α → Except ε β} {xs : List α} {e : ε} :
    xs.mapM f = .error e ↔ ∃ before x after, xs = before ++ x :: after ∧
      (∀ y ∈ before, ∃ b, f y = .ok b) ∧ f x = .error e := by
  induction xs with
  | nil => simp [pure, Except.pure]
  | cons x xs ih =>
    rw [List.mapM_cons, bind_eq_error]
    constructor
    · intro h
      cases h with
      | inl hx => exact ⟨[], x, xs, rfl, by simp, hx⟩
      | inr hrest =>
        obtain ⟨b, hb, hxs⟩ := hrest
        obtain ⟨before, y, after, rfl, hbefore, hy⟩ := ih.mp (bind_pure_eq_error.mp hxs)
        refine ⟨x :: before, y, after, rfl, ?_, hy⟩
        exact List.forall_mem_cons.mpr ⟨⟨b, hb⟩, hbefore⟩
    · intro h
      obtain ⟨before, y, after, hsplit, hbefore, hy⟩ := h
      cases before with
      | nil =>
        obtain ⟨rfl, rfl⟩ := List.cons.inj hsplit
        exact .inl hy
      | cons z before =>
        obtain ⟨rfl, rfl⟩ := List.cons.inj hsplit
        obtain ⟨⟨b, hb⟩, hrest⟩ := List.forall_mem_cons.mp hbefore
        exact .inr ⟨b, hb, bind_pure_eq_error.mpr (ih.mpr ⟨before, y, after, rfl, hrest, hy⟩)⟩

theorem exists_of_mapM_eq_error {f : α → Except ε β} {xs : List α} {e : ε}
    (h : xs.mapM f = .error e) : ∃ x ∈ xs, f x = .error e := by
  obtain ⟨before, x, after, rfl, -, hx⟩ := mapM_eq_error.mp h
  exact ⟨x, by simp, hx⟩

theorem mapM_eq_some {f : α → Option β} {xs : List α} {ys : List β} :
    xs.mapM f = some ys ↔ List.Forall₂ (fun x y => f x = some y) xs ys := by
  induction xs generalizing ys with
  | nil =>
    rw [List.mapM_nil, Option.pure_def, Option.some.injEq, List.forall₂_nil_left_iff, eq_comm]
  | cons x xs ih =>
    rw [List.mapM_cons, List.forall₂_cons_left_iff]
    simp only [Option.bind_eq_bind, Option.bind_eq_some_iff, Option.pure_def, Option.some.injEq, ih]
    constructor
    · intro h
      obtain ⟨y, hy, rest, hrest, rfl⟩ := h
      exact ⟨y, rest, hy, hrest, rfl⟩
    · intro h
      obtain ⟨y, rest, hy, hrest, rfl⟩ := h
      exact ⟨y, hy, rest, hrest, rfl⟩

/-- A list is related to its images under a function, and each element of it has a property. -/
theorem forall₂_and_eq_iff {p : α → Prop} {g : α → β} {xs : List α} {ys : List β} :
    List.Forall₂ (fun x y => p x ∧ g x = y) xs ys ↔ (∀ x ∈ xs, p x) ∧ xs.map g = ys := by
  rw [List.forall₂_and_left, ← List.forall₂_eq_eq_eq, List.forall₂_map_left_iff]

end NameService.Result
