import Mathlib.Algebra.Group.Int.Defs
import NameService.Proofs.Soundness

/-
  Amounts and coins are two spellings of one count.

  An amount counts billionths by a numeral of any length, a coin holds the quotient and
  the remainder of the count by 10^9 in two signed integers of 64 bits. What is proved:
    1. `Amount.toCoin_iff_splitAs` — the coin of an amount is the one that splits its
       count, and an amount has one exactly if its count is below 2^63 * 10^9.
    2. `Amount.accepts_coin` — a coin is read exactly if its parts can be such a quotient
       and remainder.
    3. `Amount.exact_split` — every amount and every coin is converted or refused as
       `invalidAmount`, and between coins in range and amounts in standard form the two
       conversions are inverse.
-/

namespace NameService

open Result

namespace Amount

/-- A coin splits the count of an amount by 10^9, and is of the same token. -/
structure SplitAs (a : Amount) (c : Wire.Coin) : Prop where
  sum : c.whole.toInt * 10 ^ 9 + c.fractional.toInt = Decimal.value a.quantity.toList
  fractional_nonneg : 0 ≤ c.fractional.toInt
  fractional_lt : c.fractional.toInt < 10 ^ 9
  ticker : c.ticker = a.ticker

variable {a : Amount} {c : Wire.Coin}

/-! ## From amounts to coins -/

theorem splitAs_of_toCoin (h : a.toCoin = .ok c) : a.SplitAs c := by
  obtain ⟨-, n, hn, hlt, rfl⟩ := toCoin_eq_ok.mp h
  obtain ⟨-, -, rfl⟩ := Decimal.ofText?_eq_some.mp hn
  have hunit : unit = 10 ^ 9 := rfl
  have hrest : Decimal.value a.quantity.toList % unit < unit := Nat.mod_lt _ (by decide)
  obtain ⟨hwhole, hfractional⟩ := toInt_parts hlt
  constructor
  · show (Int64.ofNat _).toInt * 10 ^ 9 + (Int64.ofNat _).toInt = _
    rw [hwhole, hfractional, hunit]
    omega
  · show 0 ≤ (Int64.ofNat _).toInt
    rw [hfractional]
    exact Int.natCast_nonneg _
  · show (Int64.ofNat _).toInt < 10 ^ 9
    rw [hfractional]
    omega
  · rfl

/-- Quotient and remainder tell a coin. -/
theorem SplitAs.unique {c' : Wire.Coin} (h : a.SplitAs c) (h' : a.SplitAs c') : c = c' := by
  have hsum := h.sum
  have hsum' := h'.sum
  have hnonneg := h.fractional_nonneg
  have hnonneg' := h'.fractional_nonneg
  have hlt := h.fractional_lt
  have hlt' := h'.fractional_lt
  have hwhole : c.whole = c'.whole := Int64.toInt_inj.mp (by omega)
  have hfractional : c.fractional = c'.fractional := Int64.toInt_inj.mp (by omega)
  have hticker : c.ticker = c'.ticker := h.ticker.trans h'.ticker.symm
  cases c
  cases c'
  congr

theorem toCoin_iff_splitAs : a.toCoin = .ok c ↔ a.InRange ∧ a.SplitAs c := by
  constructor
  · intro h
    exact ⟨(accepts a).mp ⟨c, h⟩, splitAs_of_toCoin h⟩
  · intro h
    obtain ⟨c', hc'⟩ := (accepts a).mpr h.1
    rw [h.2.unique (splitAs_of_toCoin hc'), hc']

/-- Whatever is wrong with an amount is reported as a fault of the amount. -/
theorem invalidAmount_of_toCoin {e : Error} (h : a.toCoin = .error e) :
    ∃ fault, e = .invalidAmount fault := by
  unfold toCoin at h
  split at h
  · exact ⟨_, (Except.error.inj h).symm⟩
  · split at h
    · exact ⟨_, (Except.error.inj h).symm⟩
    · split at h
      · cases h
      · exact ⟨_, (Except.error.inj h).symm⟩

/-! ## From coins to amounts -/

theorem accepts_coin (c : Wire.Coin) :
    Accepts (ofCoin c)
      (0 ≤ c.whole.toInt ∧ 0 ≤ c.fractional.toInt ∧ c.fractional.toInt < 10 ^ 9) := by
  have hunit : unit = 10 ^ 9 := rfl
  unfold ofCoin
  split
  · next hwhole => exact (Accepts.error _).congr (iff_of_false id (by omega))
  · split
    · next hfractional => exact (Accepts.error _).congr (iff_of_false id (by omega))
    · split
      · next hlarge => exact (Accepts.error _).congr (iff_of_false id (by omega))
      · next hlarge => exact (Accepts.pure _).congr (iff_of_true trivial (by omega))

theorem invalidAmount_of_ofCoin {e : Error} (h : ofCoin c = .error e) :
    ∃ fault, e = .invalidAmount fault := by
  unfold ofCoin at h
  split at h
  · exact ⟨_, (Except.error.inj h).symm⟩
  · split at h
    · exact ⟨_, (Except.error.inj h).symm⟩
    · split at h
      · exact ⟨_, (Except.error.inj h).symm⟩
      · cases h

theorem Standard.normal_eq (h : a.Standard) : a.normal = a := by
  have hstrip : Decimal.strip a.quantity.toList = a.quantity.toList := by
    apply Decimal.strip_eq_self
    intro d ds hdigits
    have hnil := h.plain _ hdigits
    cases hnil
  rw [normal, hstrip, String.ofList_toList]

/-- Coins are read as the standard forms of the amounts that they are written for. -/
theorem ofCoin_iff_standard : ofCoin c = .ok a ↔ a.Standard ∧ a.toCoin = .ok c := by
  constructor
  · intro h
    exact ⟨standard_of_ofCoin h, toCoin_of_ofCoin h⟩
  · intro h
    have hread := codec.read_write h.2
    rwa [h.1.normal_eq] at hread

/-! ## Both ways -/

/-- An amount that is in range is written as the coin that splits its count, and read
back without its leading zeros; a coin whose parts are in range is read as an amount in
standard form, and written back as it was. Everything else is refused. -/
theorem exact_split :
    (∀ a : Amount,
      (a.InRange ∧ ∃ c, a.toCoin = .ok c ∧ a.SplitAs c ∧ ofCoin c = .ok a.normal) ∨
        (¬ a.InRange ∧ ∃ fault, a.toCoin = .error (.invalidAmount fault))) ∧
    (∀ (a : Amount) (c : Wire.Coin), a.toCoin = .ok c ↔ a.InRange ∧ a.SplitAs c) ∧
    (∀ c : Wire.Coin,
      ((0 ≤ c.whole.toInt ∧ 0 ≤ c.fractional.toInt ∧ c.fractional.toInt < 10 ^ 9) ∧
          ∃ a, ofCoin c = .ok a ∧ a.Standard ∧ a.toCoin = .ok c) ∨
        (¬ (0 ≤ c.whole.toInt ∧ 0 ≤ c.fractional.toInt ∧ c.fractional.toInt < 10 ^ 9) ∧
          ∃ fault, ofCoin c = .error (.invalidAmount fault))) ∧
    (∀ (a : Amount) (c : Wire.Coin), ofCoin c = .ok a ↔ a.Standard ∧ a.toCoin = .ok c) := by
  refine ⟨fun a => ?_, fun a c => toCoin_iff_splitAs, fun c => ?_,
    fun a c => ofCoin_iff_standard⟩
  · cases hcoin : a.toCoin with
    | ok c =>
      have hrange := (accepts a).mp ⟨c, hcoin⟩
      exact .inl ⟨hrange, c, rfl, splitAs_of_toCoin hcoin, codec.read_write hcoin⟩
    | error e =>
      obtain ⟨fault, rfl⟩ := invalidAmount_of_toCoin hcoin
      exact .inr ⟨(accepts a).not_of_error hcoin, fault, rfl⟩
  · cases hamount : ofCoin c with
    | ok a =>
      have hrange := (accepts_coin c).mp ⟨a, hamount⟩
      obtain ⟨hstandard, hcoin⟩ := ofCoin_iff_standard.mp hamount
      exact .inl ⟨hrange, a, rfl, hstandard, hcoin⟩
    | error e =>
      obtain ⟨fault, rfl⟩ := invalidAmount_of_ofCoin hamount
      exact .inr ⟨(accepts_coin c).not_of_error hamount, fault, rfl⟩

-- the largest amount that has a coin, and the one after it
example : (Amount.mk "09223372036854775807999999999" 9 "IOV").toCoin =
    .ok ⟨9223372036854775807, 999999999, "IOV"⟩ := by rfl

example : (Amount.mk "9223372036854775808000000000" 9 "IOV").toCoin =
    .error (.invalidAmount (.tooLarge "9223372036854775808000000000")) := by rfl

end Amount

end NameService
