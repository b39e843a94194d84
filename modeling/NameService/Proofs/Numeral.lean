import Mathlib.Algebra.Group.Nat.Defs
import NameService.Bytes
import NameService.Decimal
import NameService.Hex

/-
  Numerals are read back, up to what they do not say.

  What is proved:
    1. `Bytes.toNat_bigEndian` — a number below 256^width is read back from its
       bytes, so that its bytes tell it (`Bytes.bigEndian_inj`). Byte strings of one
       length are told by their numbers (`Bytes.toNat_inj`) and are in the order of
       them (`Bytes.toNat_lt_toNat_iff`).
    2. `Hex.digits_ofDigits?` — lowercase digits are written back as they were, and
       the digits of bytes are read back (`Hex.ofDigits?_digits`) and keep their order
       (`Hex.digits_lt_digits_iff`). An even number of digits is read
       (`Hex.exists_ofDigits?_iff`).
    3. `Decimal.toText_of_ofText?` — the numeral of the number of a text is the
       text without its leading zeros (`Decimal.strip`), and the numeral of a number
       is read back (`Decimal.ofText?_toText`).
-/

namespace NameService

/-! ## Bytes -/

namespace Bytes

theorem foldl_bigEndian (width n acc : Nat) :
    (bigEndian width n).foldl (fun n b => 256 * n + b.toNat) acc =
      256 ^ width * acc + n % 256 ^ width := by
  induction width generalizing acc with
  | zero => simp [bigEndian, Nat.mod_one]
  | succ width ih =>
    have hmod : n % 256 ^ (width + 1) =
        n % 256 ^ width + 256 ^ width * (n / 256 ^ width % 256) := by
      rw [Nat.pow_succ, Nat.mod_mul]
    have hshift : n >>> (8 * width) = n / 256 ^ width := by
      rw [Nat.shiftRight_eq_div_pow, Nat.pow_mul]
    have hbyte : (UInt8.ofNat (n >>> (8 * width))).toNat = n / 256 ^ width % 256 := by
      rw [UInt8.toNat_ofNat', hshift]
    rw [bigEndian, List.foldl_cons, ih, hbyte, hmod, Nat.pow_succ, Nat.mul_add, Nat.mul_assoc]
    omega

/-- Of a number that needs more bytes only the low ones are kept. -/
theorem toNat_bigEndian (width n : Nat) : toNat (bigEndian width n) = n % 256 ^ width := by
  simpa [toNat] using foldl_bigEndian width n 0

theorem bigEndian_inj {width m n : Nat} (hm : m < 256 ^ width) (hn : n < 256 ^ width)
    (h : bigEndian width m = bigEndian width n) : m = n := by
  have hnumber := congrArg toNat h
  rwa [toNat_bigEndian, toNat_bigEndian, Nat.mod_eq_of_lt hm, Nat.mod_eq_of_lt hn] at hnumber

theorem toNat_cons (b : UInt8) (bs : Bytes) :
    toNat (b :: bs) = 256 ^ bs.length * b.toNat + toNat bs := by
  have hfoldl : ∀ (bs : Bytes) (acc : Nat),
      bs.foldl (fun n b => 256 * n + b.toNat) acc = 256 ^ bs.length * acc + toNat bs := by
    intro bs
    induction bs with
    | nil => simp [toNat]
    | cons c cs ih =>
      intro acc
      rw [toNat, List.foldl_cons, List.foldl_cons, ih, ih, List.length_cons, Nat.pow_succ,
        Nat.mul_add, Nat.mul_zero, Nat.zero_add, Nat.mul_assoc]
      omega
  rw [toNat, List.foldl_cons, hfoldl, Nat.mul_zero, Nat.zero_add]

theorem toNat_append (bs cs : Bytes) :
    toNat (bs ++ cs) = 256 ^ cs.length * toNat bs + toNat cs := by
  induction bs with
  | nil => simp [toNat]
  | cons b bs ih =>
    rw [List.cons_append, toNat_cons, toNat_cons, ih, List.length_append, Nat.pow_add,
      Nat.mul_comm (256 ^ bs.length), Nat.mul_assoc, Nat.mul_add, Nat.add_assoc]

theorem toNat_lt (bs : Bytes) : toNat bs < 256 ^ bs.length := by
  induction bs with
  | nil => decide
  | cons b bs ih =>
    have hbyte : b.toNat + 1 ≤ 256 := b.toNat_lt
    calc toNat (b :: bs) = 256 ^ bs.length * b.toNat + toNat bs := toNat_cons b bs
      _ < 256 ^ bs.length * (b.toNat + 1) := by rw [Nat.mul_succ]; omega
      _ ≤ 256 ^ bs.length * 256 := Nat.mul_le_mul_left _ hbyte

theorem toNat_lt_of_length {width : Nat} {bs : Bytes} (hlength : bs.length = width) :
    toNat bs < 256 ^ width :=
  hlength ▸ toNat_lt bs

/-- Of two numbers the higher places decide which is less, then the lower ones. -/
theorem place_lt_place_iff {weight m n x y : Nat} (hx : x < weight) (hy : y < weight) :
    weight * m + x < weight * n + y ↔ m < n ∨ m = n ∧ x < y := by
  rcases Nat.lt_trichotomy m n with hlt | rfl | hgt
  · have hplace : weight * (m + 1) ≤ weight * n := Nat.mul_le_mul_left weight hlt
    rw [Nat.mul_succ] at hplace
    omega
  · omega
  · have hplace : weight * (n + 1) ≤ weight * m := Nat.mul_le_mul_left weight hgt
    rw [Nat.mul_succ] at hplace
    omega

/-- Two numbers are the same only if they are in the higher places and in the lower ones. -/
theorem place_inj {weight m n x y : Nat} (hx : x < weight) (hy : y < weight)
    (h : weight * m + x = weight * n + y) : m = n ∧ x = y := by
  rcases Nat.lt_trichotomy m n with hlt | rfl | hgt
  · exact absurd h (Nat.ne_of_lt ((place_lt_place_iff hx hy).mpr (.inl hlt)))
  · exact ⟨rfl, Nat.add_left_cancel h⟩
  · exact absurd h.symm (Nat.ne_of_lt ((place_lt_place_iff hy hx).mpr (.inl hgt)))

/-- Byte strings of one length that spell one number are the same. -/
theorem toNat_inj {bs cs : Bytes} (hlength : bs.length = cs.length) (h : toNat bs = toNat cs) :
    bs = cs := by
  induction bs generalizing cs with
  | nil => exact (List.length_eq_zero_iff.mp hlength.symm).symm
  | cons b bs ih =>
    cases cs with
    | nil => cases hlength
    | cons c cs =>
      have hlength : bs.length = cs.length := Nat.succ.inj hlength
      have hbs : toNat bs < 256 ^ cs.length := toNat_lt_of_length hlength
      rw [toNat_cons, toNat_cons, hlength] at h
      obtain ⟨hfirst, hrest⟩ := place_inj hbs (toNat_lt cs) h
      rw [UInt8.toNat_inj.mp hfirst, ih hlength hrest]

/-- Byte strings of one length are in the order of the numbers that they spell. -/
theorem toNat_lt_toNat_iff {bs cs : Bytes} (hlength : bs.length = cs.length) :
    toNat bs < toNat cs ↔ bs < cs := by
  induction bs generalizing cs with
  | nil =>
    cases cs with
    | nil => exact iff_of_false (Nat.lt_irrefl _) (List.not_lt_nil _)
    | cons c cs => cases hlength
  | cons b bs ih =>
    cases cs with
    | nil => cases hlength
    | cons c cs =>
      have hlength : bs.length = cs.length := Nat.succ.inj hlength
      have hbs : toNat bs < 256 ^ cs.length := toNat_lt_of_length hlength
      rw [toNat_cons, toNat_cons, hlength, place_lt_place_iff hbs (toNat_lt cs), ih hlength,
        List.cons_lt_cons_iff, UInt8.lt_iff_toNat_lt, UInt8.toNat_inj]

theorem ofText_inj {s t : String} (h : ofText s = ofText t) : s = t := by
  have hread := congrArg toText? h
  rwa [toText?_ofText, toText?_ofText, Option.some.injEq] at hread

end Bytes

/-! ## Hexadecimal digits -/

namespace Hex

/-- The digits of either case, by their codes. -/
theorem range_of_digitValue? {c : Char} {n : Nat} (h : digitValue? c = some n) :
    (48 ≤ c.toNat ∧ c.toNat ≤ 57 ∧ c.toNat = 48 + n) ∨
      (97 ≤ c.toNat ∧ c.toNat ≤ 102 ∧ c.toNat = 87 + n) ∨
      (65 ≤ c.toNat ∧ c.toNat ≤ 70 ∧ c.toNat = 55 + n) := by
  simp only [digitValue?, Char.le_def, UInt32.le_iff_toNat_le] at h
  split at h
  · next hc =>
    have hc : 48 ≤ c.toNat ∧ c.toNat ≤ 57 := hc
    obtain rfl := Option.some.inj h
    omega
  · split at h
    · next hc =>
      have hc : 97 ≤ c.toNat ∧ c.toNat ≤ 102 := hc
      obtain rfl := Option.some.inj h
      omega
    · split at h
      · next hc =>
        have hc : 65 ≤ c.toNat ∧ c.toNat ≤ 70 := hc
        obtain rfl := Option.some.inj h
        omega
      · cases h

/-- The value of a digit is written as this digit in one of the two cases. -/
theorem digit_or_upperDigit_of_digitValue? {c : Char} {n : Nat} (h : digitValue? c = some n) :
    n < 16 ∧ (digit n = c ∨ upperDigit n = c ∧ 'A' ≤ c ∧ c ≤ 'F') := by
  have hcode : ∀ code, code = c.toNat → Char.ofNat code = c := by
    rintro _ rfl
    exact Char.ofNat_toNat c
  rcases range_of_digitValue? h with hc | hc | hc
  · refine ⟨by omega, .inl ?_⟩
    rw [digit, if_pos (by omega), hcode _ (by omega)]
  · refine ⟨by omega, .inl ?_⟩
    rw [digit, if_neg (by omega), hcode _ (by omega)]
  · refine ⟨by omega, .inr ⟨?_, hc.1, hc.2.1⟩⟩
    rw [upperDigit, if_neg (by omega), hcode _ (by omega)]

/-- The value of a digit in lower case is written as this digit. -/
theorem digit_of_digitValue? {c : Char} {n : Nat} (h : digitValue? c = some n)
    (hlower : ¬ ('A' ≤ c ∧ c ≤ 'F')) : n < 16 ∧ digit n = c := by
  obtain ⟨hlt, hdigit⟩ := digit_or_upperDigit_of_digitValue? h
  exact ⟨hlt, hdigit.resolve_right fun hupper => hlower hupper.2⟩

theorem toNat_ofNat_halves {a b : Nat} (ha : a < 16) (hb : b < 16) :
    (UInt8.ofNat (16 * a + b)).toNat = 16 * a + b := by
  rw [UInt8.toNat_ofNat']
  omega

/-- Two digits are read as one byte. -/
theorem ofDigits?_cons_eq_some {high low : Char} {rest : List Char} {bs : Bytes} :
    ofDigits? (high :: low :: rest) = some bs ↔
      ∃ a, digitValue? high = some a ∧ ∃ b, digitValue? low = some b ∧
        ∃ bytes, ofDigits? rest = some bytes ∧ UInt8.ofNat (16 * a + b) :: bytes = bs := by
  simp [ofDigits?, Option.bind_eq_some_iff]

/-- Lowercase digits are written back as they were. -/
theorem digits_ofDigits? {cs : List Char} {bs : Bytes} (h : ofDigits? cs = some bs)
    (hlower : ∀ c ∈ cs, ¬ ('A' ≤ c ∧ c ≤ 'F')) : digits digit bs = cs := by
  induction cs using ofDigits?.induct generalizing bs with
  | case1 =>
    obtain rfl : [] = bs := by simpa [ofDigits?] using h
    rfl
  | case2 c => simp [ofDigits?] at h
  | case3 high low rest ih =>
    obtain ⟨a, ha, b, hb, bytes, hbytes, rfl⟩ := ofDigits?_cons_eq_some.mp h
    obtain ⟨hlta, hhigh⟩ := digit_of_digitValue? ha (hlower high (by simp))
    obtain ⟨hltb, hlow⟩ := digit_of_digitValue? hb (hlower low (by simp))
    have hrest := ih hbytes fun c hc => hlower c (by simp [hc])
    have hbyte := toNat_ofNat_halves hlta hltb
    simp only [digits, List.flatMap_cons, hbyte] at hrest ⊢
    rw [hrest, show (16 * a + b) / 16 = a by omega, show (16 * a + b) % 16 = b by omega, hhigh,
      hlow]
    rfl

theorem digits_cons (of : Nat → Char) (b : UInt8) (bs : Bytes) :
    digits of (b :: bs) = of (b.toNat / 16) :: of (b.toNat % 16) :: digits of bs :=
  rfl

theorem length_digits (of : Nat → Char) (bs : Bytes) : (digits of bs).length = 2 * bs.length := by
  induction bs with
  | nil => rfl
  | cons b bs ih =>
    rw [digits_cons, List.length_cons, List.length_cons, ih, List.length_cons]
    omega

/-- The characters that bytes are written in are digits of half bytes. -/
theorem exists_of_mem_digits {of : Nat → Char} {bs : Bytes} {c : Char} (h : c ∈ digits of bs) :
    ∃ n < 16, of n = c := by
  obtain ⟨b, -, hb⟩ := List.mem_flatMap.mp h
  have hlt : b.toNat < 256 := b.toNat_lt
  rcases List.mem_cons.mp hb with rfl | hb
  · exact ⟨_, by omega, rfl⟩
  · obtain rfl := List.mem_singleton.mp hb
    exact ⟨_, by omega, rfl⟩

theorem digitValue?_digit : ∀ n < 16, digitValue? (digit n) = some n := by
  decide

theorem digitValue?_upperDigit : ∀ n < 16, digitValue? (upperDigit n) = some n := by
  decide

/-- The digits of bytes are read back. -/
theorem ofDigits?_digits (bs : Bytes) : ofDigits? (digits digit bs) = some bs := by
  induction bs with
  | nil => rfl
  | cons b bs ih =>
    have hlt : b.toNat < 256 := b.toNat_lt
    have hhigh := digitValue?_digit (b.toNat / 16) (by omega)
    have hlow := digitValue?_digit (b.toNat % 16) (by omega)
    have hbyte : UInt8.ofNat (16 * (b.toNat / 16) + b.toNat % 16) = b := by
      rw [Nat.div_add_mod, UInt8.ofNat_toNat]
    rw [digits_cons, ofDigits?, hhigh, hlow, ih]
    simp only [Option.bind_eq_bind, Option.bind_some, hbyte]

theorem encode_inj {bs cs : Bytes} (h : encode bs = encode cs) : bs = cs := by
  have hdigits : digits digit bs = digits digit cs := String.ofList_inj.mp h
  have hread := ofDigits?_digits bs
  rw [hdigits, ofDigits?_digits] at hread
  exact (Option.some.inj hread).symm

theorem digit_inj {m n : Nat} (hm : m < 16) (hn : n < 16) : digit m = digit n ↔ m = n := by
  constructor
  · intro h
    have hvalue := congrArg digitValue? h
    rwa [digitValue?_digit m hm, digitValue?_digit n hn, Option.some.injEq] at hvalue
  · exact congrArg digit

theorem digit_lt_digit_iff : ∀ m < 16, ∀ n < 16, digit m < digit n ↔ m < n := by
  decide

/-- The digits of byte strings are in the order of the byte strings. -/
theorem digits_lt_digits_iff {bs cs : Bytes} :
    digits digit bs < digits digit cs ↔ bs < cs := by
  induction bs generalizing cs with
  | nil =>
    cases cs with
    | nil => exact iff_of_false (List.not_lt_nil _) (List.not_lt_nil _)
    | cons c cs => exact iff_of_true (List.nil_lt_cons _ _) (List.nil_lt_cons _ _)
  | cons b bs ih =>
    cases cs with
    | nil => exact iff_of_false (List.not_lt_nil _) (List.not_lt_nil _)
    | cons c cs =>
      have hb : b.toNat < 256 := b.toNat_lt
      have hc : c.toNat < 256 := c.toNat_lt
      -- of two bytes the high digit decides, then the low one
      have hlt : b < c ↔ b.toNat / 16 < c.toNat / 16 ∨
          b.toNat / 16 = c.toNat / 16 ∧ b.toNat % 16 < c.toNat % 16 := by
        rw [UInt8.lt_iff_toNat_lt]
        omega
      have heq : b = c ↔ b.toNat / 16 = c.toNat / 16 ∧ b.toNat % 16 = c.toNat % 16 := by
        rw [← UInt8.toNat_inj]
        omega
      rw [digits_cons, digits_cons, List.cons_lt_cons_iff, List.cons_lt_cons_iff,
        List.cons_lt_cons_iff, ih, digit_lt_digit_iff _ (by omega) _ (by omega),
        digit_lt_digit_iff _ (by omega) _ (by omega), digit_inj (by omega) (by omega),
        digit_inj (by omega) (by omega), hlt, heq, and_or_left, or_assoc, and_assoc]

theorem length_ofDigits? {cs : List Char} {bs : Bytes} (h : ofDigits? cs = some bs) :
    cs.length = 2 * bs.length := by
  induction cs using ofDigits?.induct generalizing bs with
  | case1 =>
    obtain rfl : [] = bs := by simpa [ofDigits?] using h
    rfl
  | case2 c => simp [ofDigits?] at h
  | case3 high low rest ih =>
    obtain ⟨a, -, b, -, bytes, hbytes, rfl⟩ := ofDigits?_cons_eq_some.mp h
    have hrest := ih hbytes
    simp only [List.length_cons]
    omega

/-- A row of digits is read exactly if their number is even. -/
theorem exists_ofDigits?_iff {cs : List Char} : (∃ bs, ofDigits? cs = some bs) ↔
    cs.length % 2 = 0 ∧ ∀ c ∈ cs, ∃ n, digitValue? c = some n := by
  induction cs using ofDigits?.induct with
  | case1 => simp [ofDigits?]
  | case2 c => simp [ofDigits?]
  | case3 high low rest ih =>
    have hlength : (high :: low :: rest).length % 2 = rest.length % 2 := by
      simp only [List.length_cons]
      omega
    rw [hlength, List.forall_mem_cons, List.forall_mem_cons]
    constructor
    · intro h
      obtain ⟨bs, hbs⟩ := h
      obtain ⟨a, ha, b, hb, bytes, hbytes, -⟩ := ofDigits?_cons_eq_some.mp hbs
      obtain ⟨heven, hrest⟩ := ih.mp ⟨bytes, hbytes⟩
      exact ⟨heven, ⟨a, ha⟩, ⟨b, hb⟩, hrest⟩
    · intro h
      obtain ⟨heven, ⟨a, ha⟩, ⟨b, hb⟩, hrest⟩ := h
      obtain ⟨bytes, hbytes⟩ := ih.mpr ⟨heven, hrest⟩
      exact ⟨_, ofDigits?_cons_eq_some.mpr ⟨a, ha, b, hb, bytes, hbytes, rfl⟩⟩

end Hex

/-! ## Decimal digits -/

namespace Decimal

/-- A row of digits without its leading zeros; of zeros alone the last is kept. -/
def strip : List Char → List Char
  | '0' :: c :: cs => strip (c :: cs)
  | cs => cs

theorem strip_eq_self {cs : List Char} (h : ∀ c ds, cs = '0' :: c :: ds → False) :
    strip cs = cs := by
  unfold strip
  split
  · exact absurd rfl (h _ _)
  · rfl

theorem length_strip_le (cs : List Char) : (strip cs).length ≤ cs.length := by
  induction cs using strip.induct with
  | case1 c cs ih =>
    rw [strip]
    exact Nat.le_succ_of_le ih
  | case2 cs hzero => exact Nat.le_of_eq (congrArg List.length (strip_eq_self hzero))

/-- A zero in front that is kept stands alone. -/
theorem eq_nil_of_strip_eq_self {rest : List Char} (h : strip ('0' :: rest) = '0' :: rest) :
    rest = [] := by
  cases rest with
  | nil => rfl
  | cons c cs =>
    have hshorter := length_strip_le (c :: cs)
    rw [strip] at h
    rw [h] at hshorter
    exact absurd hshorter (Nat.not_succ_le_self _)

/-- Leading zeros do not matter when a row of digits is read. -/
theorem ofChars?_strip (cs : List Char) : ofChars? (strip cs) = ofChars? cs := by
  induction cs using strip.induct with
  | case1 c cs ih =>
    rw [strip, ih]
    simp [ofChars?, value]
  | case2 cs hzero =>
    rw [strip_eq_self hzero]

theorem isDigit_iff {c : Char} : c.isDigit = true ↔ '0' ≤ c ∧ c ≤ '9' := by
  simp [Char.isDigit, Char.le_def, UInt32.le_iff_toNat_le]

theorem digitChar_of_isDigit {c : Char} (h : c.isDigit = true) :
    c.toNat - 48 < 10 ∧ Nat.digitChar (c.toNat - 48) = c := by
  have hrange : 48 ≤ c.toNat ∧ c.toNat ≤ 57 := by
    simpa [Char.isDigit, UInt32.le_iff_toNat_le] using h
  refine ⟨by omega, Char.toNat_inj.mp ?_⟩
  rw [Nat.toNat_digitChar_of_lt_ten (by omega)]
  omega

/-- Further digits are appended to the numeral of a number other than 0. -/
theorem toDigits_foldl {cs : List Char} (h : cs.all Char.isDigit = true) {n : Nat} (hn : 0 < n) :
    Nat.toDigits 10 (cs.foldl (fun n c => 10 * n + (c.toNat - 48)) n) =
      Nat.toDigits 10 n ++ cs := by
  induction cs generalizing n with
  | nil => simp
  | cons c cs ih =>
    obtain ⟨hc, hcs⟩ : c.isDigit = true ∧ cs.all Char.isDigit = true := by simpa using h
    obtain ⟨hlt, hchar⟩ := digitChar_of_isDigit hc
    rw [List.foldl_cons, ih hcs (by omega), ← Nat.toDigits_append_toDigits (by decide) hn hlt,
      Nat.toDigits_of_lt_base hlt, hchar, List.append_assoc]
    rfl

/-- The numeral of the number of a row of digits is the row without its leading
zeros. -/
theorem toDigits_value {cs : List Char} (h : cs.all Char.isDigit = true) (hne : cs ≠ []) :
    Nat.toDigits 10 (value cs) = strip cs := by
  induction cs using strip.induct with
  | case1 c cs ih =>
    have hvalue : value ('0' :: c :: cs) = value (c :: cs) := rfl
    rw [hvalue, strip]
    exact ih (by simpa using h) (by simp)
  | case2 cs hzero =>
    rw [strip_eq_self hzero]
    cases cs with
    | nil => exact absurd rfl hne
    | cons c cs =>
      obtain ⟨hc, hcs⟩ : c.isDigit = true ∧ cs.all Char.isDigit = true := by simpa using h
      obtain ⟨hlt, hchar⟩ := digitChar_of_isDigit hc
      have hvalue : value (c :: cs) =
          cs.foldl (fun n c => 10 * n + (c.toNat - 48)) (c.toNat - 48) := by
        simp [value]
      by_cases hpos : 0 < c.toNat - 48
      · rw [hvalue, toDigits_foldl hcs hpos, Nat.toDigits_of_lt_base hlt, hchar]
        rfl
      · -- a zero in front that is not stripped stands alone
        have hc0 : c = '0' := by
          rw [← hchar, show c.toNat - 48 = 0 by omega]
          rfl
        subst hc0
        cases cs with
        | nil => rfl
        | cons d ds => exact absurd rfl (hzero d ds)

/-- A row is read as a number exactly if it is one of digits, one or more, of this value. -/
theorem ofChars?_eq_some {cs : List Char} {n : Nat} :
    ofChars? cs = some n ↔ cs ≠ [] ∧ (∀ c ∈ cs, c.isDigit = true) ∧ value cs = n := by
  have hform : (!cs.isEmpty && cs.all Char.isDigit) = true ↔
      cs ≠ [] ∧ ∀ c ∈ cs, c.isDigit = true := by simp
  rw [ofChars?]
  by_cases h : (!cs.isEmpty && cs.all Char.isDigit) = true
  · obtain ⟨hne, hdigits⟩ := hform.mp h
    rw [if_pos h, Option.some.injEq]
    exact ⟨fun hn => ⟨hne, hdigits, hn⟩, fun hs => hs.2.2⟩
  · rw [if_neg h]
    simp only [reduceCtorEq, false_iff]
    exact fun hs => h (hform.mpr ⟨hs.1, hs.2.1⟩)

theorem ofText?_eq_some {s : String} {n : Nat} :
    ofText? s = some n ↔
      s ≠ "" ∧ (∀ c ∈ s.toList, c.isDigit = true) ∧ value s.toList = n := by
  rw [ofText?, ofChars?_eq_some, ne_eq, String.toList_eq_nil_iff]

/-- The numeral of the number of a text is the text without its leading zeros. -/
theorem toText_of_ofText? {s : String} {n : Nat} (h : ofText? s = some n) :
    toText n = String.ofList (strip s.toList) := by
  obtain ⟨hne, hdigits, rfl⟩ := ofText?_eq_some.mp h
  have hall : s.toList.all Char.isDigit = true := List.all_eq_true.mpr hdigits
  have hlist : s.toList ≠ [] := by simpa using hne
  rw [toText, Nat.toString_eq_ofList_toDigits, toDigits_value hall hlist]

/-- The numeral of a number is read back. -/
theorem ofText?_toText (n : Nat) : ofText? (toText n) = some n := by
  have hdigits : (Nat.toDigits 10 n).all Char.isDigit = true :=
    List.all_eq_true.mpr fun c hc => Nat.isDigit_of_mem_toDigits (by decide) (by decide) hc
  have hform : (!(Nat.toDigits 10 n).isEmpty && (Nat.toDigits 10 n).all Char.isDigit) = true := by
    simp [hdigits, Nat.toDigits_ne_nil]
  have hvalue : value (Nat.toDigits 10 n) = n :=
    Nat.ofDigitChars_toDigits (by decide) (by decide)
  rw [ofText?, toText, Nat.toString_eq_ofList_toDigits, String.toList_ofList, ofChars?,
    if_pos hform, hvalue]

/-- No zero stands in front of the other digits of a numeral. -/
theorem eq_nil_of_toText {n : Nat} {rest : List Char} (h : (toText n).toList = '0' :: rest) :
    rest = [] := by
  have hstrip := congrArg String.toList (toText_of_ofText? (ofText?_toText n))
  rw [String.toList_ofList, h] at hstrip
  exact eq_nil_of_strip_eq_self hstrip.symm

end Decimal

end NameService
