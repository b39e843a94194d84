import NameService.Bytes
import NameService.Error

/-
  Checks of single fields, each with the name under which a failure is
  reported.

  On the wire an absent byte field and an empty one are the same, so a field
  that must be there is one that is not empty. Absence is reported before a
  wrong length.
-/

namespace NameService.Check

/-- A byte field that must not be empty. -/
def present (field : String) (bs : Bytes) : Except Error Bytes :=
  if bs.isEmpty then .error (.missing field) else .ok bs

def exactly (field : String) (length : Nat) (bs : Bytes) : Except Error Bytes :=
  if bs.length = length then .ok bs else .error (.invalidLength field length bs.length)

/-- A byte field that must be there with a fixed length. -/
def fixed (field : String) (length : Nat) (bs : Bytes) : Except Error Bytes := do
  exactly field length (← present field bs)

/-- A field that must have a value. -/
def given {α : Type} (field : String) : Option α → Except Error α
  | none => .error (.missing field)
  | some v => .ok v

def optionally {α β : Type} (f : α → Except Error β) : Option α → Except Error (Option β)
  | none => .ok none
  | some v => (f v).map some

end NameService.Check
