/-
  Byte strings: big-endian integers and text.

  A byte string is a plain list, so that every function on it is by recursion
  on the data. Two views are given here: the number that a fixed-width byte
  string spells, most significant byte first, and the text that it holds in
  UTF-8. What is stated:
    1. `length_bigEndian` — a number written in `width` bytes has that length.
    2. `toText?_ofText` — text written as bytes is read back.
-/

namespace NameService

abbrev Bytes := List UInt8

namespace Bytes

/-- The `width` low bytes of `n`, most significant first. -/
def bigEndian : Nat → Nat → Bytes
  | 0, _ => []
  | width + 1, n => UInt8.ofNat (n >>> (8 * width)) :: bigEndian width n

/-- The number that a byte string spells, most significant byte first. -/
def toNat (bs : Bytes) : Nat :=
  bs.foldl (fun n b => 256 * n + b.toNat) 0

/-- The UTF-8 bytes of a text. -/
def ofText (s : String) : Bytes :=
  s.toUTF8.data.toList

/-- The text that a byte string holds in UTF-8, if it is well formed: no
overlong form, no surrogate, nothing above U+10FFFF. -/
def toText? (bs : Bytes) : Option String :=
  String.fromUTF8? ⟨bs.toArray⟩

@[simp] theorem length_bigEndian (width n : Nat) : (bigEndian width n).length = width := by
  induction width with
  | zero => rfl
  | succ width ih => simp [bigEndian, ih]

@[simp] theorem toText?_ofText (s : String) : toText? (ofText s) = some s := by
  have h : (⟨s.toUTF8.data.toList.toArray⟩ : ByteArray) = s.toUTF8 := by simp
  unfold toText? ofText
  rw [h]
  exact dif_pos (show s.toUTF8.IsValidUTF8 from s.isValidUTF8)

end Bytes

end NameService
