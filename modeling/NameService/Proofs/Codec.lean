import NameService.Check
import NameService.Proofs.Result

/-
  Writers and readers that agree up to spelling.

  Several values may be written as one, and reading gives the normal form of
  all of them: the one law of a `Codec` says that reading undoes writing up to
  the normal form, the other that the normal form is written in the same way.
  Codecs are put together from those of the parts: optional values and lists
  here, records where they are defined.
-/

namespace NameService

variable {α β : Type}

/-- A writer from `α` to `β`, and the reader that gives back normal forms. -/
structure Codec (write : α → Except Error β) (read : β → Except Error α) (normal : α → α) :
    Prop where
  read_write : ∀ {a b}, write a = .ok b → read b = .ok (normal a)
  write_normal : ∀ {a b}, write a = .ok b → write (normal a) = .ok b

namespace Codec

open Result

variable {write : α → Except Error β} {read : β → Except Error α} {normal : α → α}

/-- Values that are written alike have one normal form. -/
theorem normal_eq (h : Codec write read normal) {a a' : α} {b : β} (ha : write a = .ok b)
    (ha' : write a' = .ok b) : normal a = normal a' :=
  Except.ok.inj ((h.read_write ha).symm.trans (h.read_write ha'))

/-- The normal form is its own. -/
theorem normal_normal (h : Codec write read normal) {a : α} {b : β} (ha : write a = .ok b) :
    normal (normal a) = normal a :=
  h.normal_eq (h.write_normal ha) ha

theorem optional (h : Codec write read normal) :
    Codec (Check.optionally write) (Check.optionally read) (Option.map normal) where
  read_write {a b} hab := by
    cases a with
    | none =>
      obtain rfl : none = b := by simpa [Check.optionally] using hab
      rfl
    | some a =>
      obtain ⟨b, hb, rfl⟩ := map_eq_ok.mp hab
      exact map_eq_ok.mpr ⟨normal a, h.read_write hb, rfl⟩
  write_normal {a b} hab := by
    cases a with
    | none => exact hab
    | some a =>
      obtain ⟨b, hb, rfl⟩ := map_eq_ok.mp hab
      exact map_eq_ok.mpr ⟨b, h.write_normal hb, rfl⟩

theorem list (h : Codec write read normal) :
    Codec (fun as => as.mapM write) (fun bs => bs.mapM read) (List.map normal) where
  read_write {as bs} hab := by
    rw [mapM_eq_ok] at hab ⊢
    rw [List.forall₂_map_right_iff]
    exact hab.flip.imp fun b a => h.read_write
  write_normal {as bs} hab := by
    rw [mapM_eq_ok] at hab ⊢
    rw [List.forall₂_map_left_iff]
    exact hab.imp fun a b => h.write_normal

/-- The same when the reader knows the position of each element. -/
theorem read_zipIdx {read : Nat → β → Except Error α} (h : ∀ i, Codec write (read i) normal)
    {as : List α} {bs : List β} (hab : as.mapM write = .ok bs) (start : Nat) :
    (bs.zipIdx start).mapM (fun (b, i) => read i b) = .ok (as.map normal) := by
  rw [mapM_eq_ok] at hab
  induction hab generalizing start with
  | nil => rfl
  | cons ha _ ih =>
    rw [List.zipIdx_cons, List.mapM_cons, ih (start + 1)]
    simp only [(h start).read_write ha, ok_bind]
    rfl

end Codec

end NameService
