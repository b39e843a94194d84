import NameService.Check
import NameService.Proofs.Result

/-
  What a chain of steps makes sure of.

  `Ensures x p` says that `p` holds of whatever `x` gives, if it gives anything. Unlike
  `Accepts` it says nothing of when this is so. A later step may use what the steps in
  front of it have made sure of.
-/

namespace NameService

/-- What a step gives has a property. -/
def Ensures {ε α : Type} (x : Except ε α) (p : α → Prop) : Prop :=
  ∀ a, x = .ok a → p a

namespace Ensures

open Result

variable {ε α β : Type} {p : α → Prop} {q : β → Prop} {x : Except ε α}

theorem pure {a : α} (h : p a) : Ensures (Pure.pure a : Except ε α) p :=
  fun _ hb => pure_eq_ok.mp hb ▸ h

theorem error (e : ε) : Ensures (Except.error e) p :=
  nofun

theorem bind {f : α → Except ε β} (hx : Ensures x p) (hf : ∀ a, p a → Ensures (f a) q) :
    Ensures (x >>= f) q := by
  intro b hb
  obtain ⟨a, ha, hfa⟩ := bind_eq_ok.mp hb
  exact hf a (hx a ha) b hfa

/-- A step that fails under a condition, in front of others. -/
theorem guard {c : Prop} [Decidable c] {e : ε} {rest : PUnit → Except ε α}
    (hrest : ¬ c → ∀ u, Ensures (rest u) p) :
    Ensures (if c then throw e >>= rest else rest ()) p := by
  split
  · exact error e
  · next hc => exact hrest hc ()

theorem mapM {f : α → Except ε β} (hf : ∀ a, Ensures (f a) q) (as : List α) :
    Ensures (as.mapM f) fun bs => ∀ b ∈ bs, q b := by
  induction as with
  | nil => exact pure (by simp)
  | cons a as ih =>
    rw [List.mapM_cons]
    refine (hf a).bind fun b hb => ih.bind fun bs hbs => pure ?_
    exact List.forall_mem_cons.mpr ⟨hb, hbs⟩

theorem optionally {f : α → Except Error β} (hf : ∀ a, Ensures (f a) q) (o : Option α) :
    Ensures (Check.optionally f o) fun o => ∀ b ∈ o, q b := by
  intro o' ho'
  cases o with
  | none =>
    obtain rfl := Except.ok.inj ho'
    simp
  | some a =>
    obtain ⟨b, hb, rfl⟩ := map_eq_ok.mp ho'
    simpa using hf a b hb

end Ensures

end NameService
