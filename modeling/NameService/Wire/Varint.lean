import NameService.Bytes

/-
  Variable-length integers: seven bits to a byte, least significant group
  first; the high bit of a byte says that another byte follows.

  Integers of up to 64 bits are written, in one to ten bytes. Reading accepts
  longer forms of small integers too, but never more than ten bytes, and in the
  tenth only the one bit that is left.
-/

namespace NameService.Wire.Varint

/-- The groups of an integer, at most `n + 1` of them. -/
def groups : Nat → Nat → Bytes
  | 0, v => [UInt8.ofNat v]
  | n + 1, v =>
    if v < 128 then [UInt8.ofNat v]
    else UInt8.ofNat (v % 128 + 128) :: groups n (v / 128)

/-- The shortest form of an integer below 2^64. -/
def encode (v : Nat) : Bytes :=
  groups 9 v

/-- Reads at most `n` groups: the integer, and the bytes behind it. -/
def readGroups : Nat → Bytes → Option (Nat × Bytes)
  | 0, _ => none
  | _ + 1, [] => none
  | n + 1, b :: rest =>
    if b.toNat < 128 then
      if n = 0 ∧ 1 < b.toNat then none else some (b.toNat, rest)
    else
      match readGroups n rest with
      | none => none
      | some (v, rest) => some (b.toNat - 128 + 128 * v, rest)

/-- Reads an integer, and the bytes behind it. -/
def decode (bs : Bytes) : Option (Nat × Bytes) :=
  readGroups 10 bs

end NameService.Wire.Varint
