import NameService.Check
import NameService.Proofs.Result

/-
  Two runs that cannot be told apart.

  `Alike view x y` says of two computations that both fail with the same error, or both
  give results that look the same through `view`. The judgement goes through chains of
  steps as these are put together: a step that both computations share needs no proof
  (`Alike.step`), and of a step in which they differ the rest may only use what can be
  seen of its result (`Alike.bind`).
-/

namespace NameService

variable {ε α β γ δ : Type}

/-- Two computations fail alike, or give results that look alike. -/
inductive Alike (view : α → γ) : Except ε α → Except ε α → Prop
  | error (e : ε) : Alike view (.error e) (.error e)
  | ok {a b : α} (h : view a = view b) : Alike view (.ok a) (.ok b)

namespace Alike

variable {view : α → γ} {view' : β → δ} {x y : Except ε α} {f g : α → Except ε β}

theorem pure {a b : α} (h : view a = view b) :
    Alike view (Pure.pure a : Except ε α) (Pure.pure b) :=
  .ok h

theorem refl (view : α → γ) (x : Except ε α) : Alike view x x := by
  cases x with
  | error e => exact .error e
  | ok a => exact .ok rfl

theorem map_eq (h : Alike view x y) : x.map view = y.map view := by
  cases h with
  | error e => rfl
  | ok hab => exact congrArg Except.ok hab

/-- The rest may depend on how the results came about. -/
theorem bind_of_ok (h : Alike view x y)
    (hnext : ∀ a b, x = .ok a → y = .ok b → view a = view b → Alike view' (f a) (g b)) :
    Alike view' (x >>= f) (y >>= g) := by
  cases h with
  | error e => exact .error e
  | ok h => exact hnext _ _ rfl rfl h

theorem bind (h : Alike view x y) (hnext : ∀ a b, view a = view b → Alike view' (f a) (g b)) :
    Alike view' (x >>= f) (y >>= g) :=
  h.bind_of_ok fun a b _ _ => hnext a b

/-- A step that both computations share. -/
theorem step (hnext : ∀ a, Alike view' (f a) (g a)) : Alike view' (x >>= f) (x >>= g) := by
  cases x with
  | error e => exact .error e
  | ok a => exact hnext a

theorem mapM (h : ∀ a, Alike view' (f a) (g a)) (as : List α) :
    Alike (List.map view') (as.mapM f) (as.mapM g) := by
  induction as with
  | nil => exact .ok rfl
  | cons a as ih =>
    rw [List.mapM_cons, List.mapM_cons]
    refine (h a).bind fun b b' hb => ih.bind fun bs bs' hbs => .pure ?_
    rw [List.map_cons, List.map_cons, hb, hbs]

theorem map {h : α → β} (hxy : Alike view x y)
    (hview : ∀ a b, view a = view b → view' (h a) = view' (h b)) :
    Alike view' (x.map h) (y.map h) := by
  cases hxy with
  | error e => exact .error e
  | ok hab => exact .ok (hview _ _ hab)

theorem optionally {f g : α → Except Error β} (h : ∀ a, Alike view' (f a) (g a)) (o : Option α) :
    Alike (Option.map view') (Check.optionally f o) (Check.optionally g o) := by
  cases o with
  | none => exact .ok rfl
  | some a => exact (h a).map fun _ _ => congrArg some

end Alike

end NameService
