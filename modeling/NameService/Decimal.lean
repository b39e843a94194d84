/-
  Decimal numerals: a row of ASCII digits, of any length, read as a number.

  Leading zeros are read and never written.
-/

namespace NameService.Decimal

/-- The number that a row of digits spells, most significant first. -/
def value (digits : List Char) : Nat :=
  digits.foldl (fun n c => 10 * n + (c.toNat - 48)) 0

/-- The number of a numeral: one ASCII digit or more, and nothing else. -/
def ofChars? (cs : List Char) : Option Nat :=
  if !cs.isEmpty && cs.all Char.isDigit then some (value cs) else none

def ofText? (s : String) : Option Nat :=
  ofChars? s.toList

/-- The number of a numeral that may have a plus sign in front. -/
def ofPlusText? (s : String) : Option Nat :=
  match s.toList with
  | '+' :: digits => ofChars? digits
  | digits => ofChars? digits

/-- The numeral of a number, without superfluous zeros. -/
def toText (n : Nat) : String :=
  toString n

end NameService.Decimal
