import NameService.Check
import NameService.Proofs.Result

/-
  When a chain of checks succeeds.

  `Accepts x p` says that `x` succeeds exactly if `p` holds. It is put together
  in the way that `x` is: one step after another asks for both conditions, a list
  for the condition of every element. What the steps give back does not matter,
  since no condition of a later step depends on it.
-/

namespace NameService

/-- A step succeeds exactly if `p` holds. -/
def Accepts {ε α : Type} (x : Except ε α) (p : Prop) : Prop :=
  (∃ a, x = .ok a) ↔ p

namespace Accepts

open Result

variable {ε α β : Type} {p q : Prop}

theorem pure (a : α) : Accepts (Pure.pure a : Except ε α) True :=
  iff_of_true ⟨a, rfl⟩ trivial

theorem error (e : ε) : Accepts (Except.error e : Except ε α) False :=
  iff_of_false (fun ⟨_, h⟩ => nomatch h) id

theorem congr {x : Except ε α} (hx : Accepts x p) (h : p ↔ q) : Accepts x q :=
  Iff.trans hx h

/-- A step that fails does so because the condition does not hold. -/
theorem not_of_error {x : Except ε α} (hx : Accepts x p) {e : ε} (h : x = .error e) : ¬ p := by
  intro hp
  obtain ⟨a, ha⟩ := hx.mpr hp
  rw [h] at ha
  cases ha

/-- A step after another one. -/
theorem bind {x : Except ε α} {f : α → Except ε β} (hx : Accepts x p)
    (hf : ∀ a, Accepts (f a) q) : Accepts (x >>= f) (p ∧ q) := by
  constructor
  · rintro ⟨b, hb⟩
    obtain ⟨a, ha, hfa⟩ := bind_eq_ok.mp hb
    exact ⟨hx.mp ⟨a, ha⟩, (hf a).mp ⟨b, hfa⟩⟩
  · rintro ⟨hp, hq⟩
    obtain ⟨a, ha⟩ := hx.mpr hp
    obtain ⟨b, hb⟩ := (hf a).mpr hq
    exact ⟨b, bind_eq_ok.mpr ⟨a, ha, hb⟩⟩

/-- The last step but for wrapping up its result. -/
theorem bind_pure {x : Except ε α} (hx : Accepts x p) (f : α → β) :
    Accepts (x >>= fun a => Pure.pure (f a)) p :=
  (hx.bind fun a => pure (f a)).congr (iff_of_eq (and_true p))

/-- A step that fails under a condition, in front of others. -/
theorem guard {c : Prop} [Decidable c] {e : ε} {rest : PUnit → Except ε α}
    (hrest : ∀ u, Accepts (rest u) p) :
    Accepts (if c then throw e >>= rest else rest ()) (¬ c ∧ p) := by
  by_cases hc : c
  · rw [if_pos hc]
    exact (error e).congr (by simp [hc])
  · rw [if_neg hc]
    exact (hrest ()).congr (by simp [hc])

theorem optionally {f : α → Except Error β} {p : α → Prop} (hf : ∀ a, Accepts (f a) (p a))
    (o : Option α) : Accepts (Check.optionally f o) (∀ a ∈ o, p a) := by
  cases o with
  | none => exact iff_of_true ⟨none, rfl⟩ (by simp)
  | some a =>
    have hmap : (∃ b, Check.optionally f (some a) = .ok b) ↔ ∃ b, f a = .ok b := by
      simp [Check.optionally, map_eq_ok]
    exact hmap.trans ((hf a).congr (by simp))

theorem mapM {f : α → Except ε β} {p : α → Prop} (hf : ∀ a, Accepts (f a) (p a)) (as : List α) :
    Accepts (as.mapM f) (∀ a ∈ as, p a) := by
  induction as with
  | nil => exact iff_of_true ⟨[], rfl⟩ (by simp)
  | cons a as ih =>
    rw [List.mapM_cons]
    refine ((hf a).bind fun b => ih.bind_pure (b :: ·)).congr ?_
    simp

end Accepts

end NameService
