import NameService.Bytes

/-
  Hexadecimal text of byte strings: two digits for each byte, high half first.

  Writing uses digits of one case; reading takes either. Nothing but an even
  number of digits is read.
-/

namespace NameService.Hex

/-- The lowercase digit of a value below 16. -/
def digit (n : Nat) : Char :=
  if n < 10 then Char.ofNat (48 + n) else Char.ofNat (87 + n)

def upperDigit (n : Nat) : Char :=
  if n < 10 then Char.ofNat (48 + n) else Char.ofNat (55 + n)

/-- The value of a digit of either case. -/
def digitValue? (c : Char) : Option Nat :=
  if '0' ≤ c ∧ c ≤ '9' then some (c.toNat - 48)
  else if 'a' ≤ c ∧ c ≤ 'f' then some (c.toNat - 87)
  else if 'A' ≤ c ∧ c ≤ 'F' then some (c.toNat - 55)
  else none

/-- The digits of a byte string, written by the given choice of digits. -/
def digits (of : Nat → Char) (bs : Bytes) : List Char :=
  bs.flatMap fun b => [of (b.toNat / 16), of (b.toNat % 16)]

/-- A byte string in lowercase digits. -/
def encode (bs : Bytes) : String :=
  String.ofList (digits digit bs)

def encodeUpper (bs : Bytes) : String :=
  String.ofList (digits upperDigit bs)

/-- The bytes that a row of digits spells; an odd digit left over is refused. -/
def ofDigits? : List Char → Option Bytes
  | [] => some []
  | [_] => none
  | high :: low :: rest => do
    let h ← digitValue? high
    let l ← digitValue? low
    let bs ← ofDigits? rest
    some (UInt8.ofNat (16 * h + l) :: bs)

def decode? (s : String) : Option Bytes :=
  ofDigits? s.toList

end NameService.Hex
