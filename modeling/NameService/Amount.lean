import NameService.Check
import NameService.Decimal
import NameService.Wire.Coin

/-
  Amounts: a quantity of the smallest unit of a token, as a numeral of any
  length, against coins, which split it into whole units and billionths.
-/

namespace NameService

structure Amount where
  /-- The count of smallest units, as a numeral. -/
  quantity : String
  /-- How many decimal places the smallest unit has. -/
  fractionalDigits : UInt32
  ticker : String
  deriving DecidableEq, Repr

namespace Amount

/-- The decimal places of every token. -/
def places : Nat := 9

/-- The smallest units in a whole one. -/
def unit : Nat := Nat.pow 10 places

/-- The coin of an amount. The whole part must be below 2^63. -/
def toCoin (a : Amount) : Except Error Wire.Coin :=
  if a.fractionalDigits.toNat ≠ places then
    .error (.invalidAmount (.fractionalDigits a.fractionalDigits))
  else
    match Decimal.ofText? a.quantity with
    | none => .error (.invalidAmount (.notDigits a.quantity))
    | some n =>
      if ((n / unit : Nat) : Int) ≤ Int64.maxValue.toInt then
        .ok ⟨Int64.ofNat (n / unit), Int64.ofNat (n % unit), a.ticker⟩
      else .error (.invalidAmount (.tooLarge a.quantity))

/-- The amount of a coin, both parts of which must be in range. -/
def ofCoin (c : Wire.Coin) : Except Error Amount :=
  if c.whole.toInt < 0 then .error (.invalidAmount .negativeWhole)
  else if c.fractional.toInt < 0 then .error (.invalidAmount .negativeFractional)
  else if unit ≤ c.fractional.toInt.toNat then
    .error (.invalidAmount (.fractionalTooLarge c.fractional))
  else
    .ok {
      quantity := Decimal.toText (c.whole.toInt.toNat * unit + c.fractional.toInt.toNat)
      fractionalDigits := UInt32.ofNat places
      ticker := c.ticker }

/-- The amount of a coin that must be there. -/
def ofField (field : String) (c : Option Wire.Coin) : Except Error Amount := do
  ofCoin (← Check.given field c)

end Amount

end NameService
