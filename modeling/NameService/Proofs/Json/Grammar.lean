import Mathlib.Data.List.Forall2
import Mathlib.Data.Nat.Digits.Defs
import NameService.Proofs.Json.Fields

/-
  Ids and byte strings in JSON, by their grammars.

  Either kind has one form in which it is written and several in which it is read: an id is
  an integer or a numeral, with a sign and with zeros in front if one likes, and a byte
  string has digits of either case, behind `0x` or not. A grammar says which values spell
  what and which spellings are in the standard form, without mention of the functions that
  read and write. What is proved:
    1. `Decimal.ofChars?_iff_spells` and `Hex.ofDigits?_iff_spells` — rows of digits are
       read by their places.
    2. `readId_iff` and `readBytes_iff` — exactly the spellings of a value are read.
    3. `ofId_eq_iff` and `ofBytes_eq_iff` — a value is written in its one standard form.
    4. `Grammar.Governs.list` — what goes by a grammar, lists of it go by, too.
    5. `readers_by_grammar` — ids, lists of ids and byte strings go by their grammars, and
       which values are read at all.
-/

namespace NameService

/-! ## Rows of digits -/

namespace Decimal

/-- A row of ASCII digits, one or more, spells a number, the last digit in the lowest place. -/
structure Spells (digits : List Char) (n : Nat) : Prop where
  ne_nil : digits ≠ []
  isDigit : ∀ c ∈ digits, '0' ≤ c ∧ c ≤ '9'
  value : Nat.ofDigits 10 (digits.reverse.map fun c => c.toNat - '0'.toNat) = n

theorem value_eq_ofDigits (cs : List Char) :
    value cs = Nat.ofDigits 10 (cs.reverse.map fun c => c.toNat - '0'.toNat) := by
  have hstep : (fun (n : Nat) (c : Char) => 10 * n + (c.toNat - 48)) =
      fun n c => c.toNat - '0'.toNat + 10 * n := by
    funext n c
    exact Nat.add_comm _ _
  rw [value, hstep, Nat.ofDigits_eq_foldr, List.foldr_map, List.foldr_reverse]
  rfl

theorem ofChars?_iff_spells {cs : List Char} {n : Nat} : ofChars? cs = some n ↔ Spells cs n := by
  rw [ofChars?_eq_some, value_eq_ofDigits]
  simp only [isDigit_iff]
  exact ⟨fun h => ⟨h.1, h.2.1, h.2.2⟩, fun h => ⟨h.ne_nil, h.isDigit, h.value⟩⟩

end Decimal

namespace Hex

/-- A digit of either case denotes its place in the row of all digits. -/
def Denotes (c : Char) (n : Nat) : Prop :=
  "0123456789abcdef".toList[n]? = some c ∨ "0123456789ABCDEF".toList[n]? = some c

/-- A row of digits spells bytes, each in two digits, the high half first. -/
inductive Spells : List Char → Bytes → Prop
  | nil : Spells [] []
  | cons {high low : Char} {h l : Nat} {b : UInt8} {digits : List Char} {bs : Bytes} :
    Denotes high h → Denotes low l → b.toNat = 16 * h + l → Spells digits bs →
      Spells (high :: low :: digits) (b :: bs)

theorem getElem?_lower : ∀ n < 16, "0123456789abcdef".toList[n]? = some (digit n) := by
  decide

theorem getElem?_upper : ∀ n < 16, "0123456789ABCDEF".toList[n]? = some (upperDigit n) := by
  decide

theorem not_upper_digit : ∀ n < 16, ¬ ('A' ≤ digit n ∧ digit n ≤ 'F') := by
  decide

theorem not_upper_of_mem_lower {c : Char} (h : c ∈ "0123456789abcdef".toList) :
    ¬ ('A' ≤ c ∧ c ≤ 'F') := by
  obtain ⟨n, hn⟩ := List.mem_iff_getElem?.mp h
  have hlt : n < 16 := (List.getElem?_eq_some_iff.mp hn).1
  obtain rfl := Option.some.inj ((getElem?_lower n hlt).symm.trans hn)
  exact not_upper_digit n hlt

theorem denotes_iff {c : Char} {n : Nat} :
    Denotes c n ↔ n < 16 ∧ (digit n = c ∨ upperDigit n = c) := by
  constructor
  · intro h
    have hlt : n < 16 := h.elim (fun h => (List.getElem?_eq_some_iff.mp h).1)
      (fun h => (List.getElem?_eq_some_iff.mp h).1)
    refine ⟨hlt, ?_⟩
    rwa [Denotes, getElem?_lower n hlt, getElem?_upper n hlt, Option.some.injEq,
      Option.some.injEq] at h
  · intro h
    rw [Denotes, getElem?_lower n h.1, getElem?_upper n h.1, Option.some.injEq, Option.some.injEq]
    exact h.2

theorem digitValue?_iff_denotes {c : Char} {n : Nat} : digitValue? c = some n ↔ Denotes c n := by
  rw [denotes_iff]
  constructor
  · intro h
    obtain ⟨hlt, hdigit⟩ := digit_or_upperDigit_of_digitValue? h
    exact ⟨hlt, hdigit.imp_right And.left⟩
  · intro h
    obtain ⟨hlt, rfl | rfl⟩ := h
    · exact digitValue?_digit n hlt
    · exact digitValue?_upperDigit n hlt

theorem ofDigits?_iff_spells {cs : List Char} {bs : Bytes} :
    ofDigits? cs = some bs ↔ Spells cs bs := by
  constructor
  · intro h
    induction cs using ofDigits?.induct generalizing bs with
    | case1 =>
      obtain rfl : [] = bs := by simpa [ofDigits?] using h
      exact .nil
    | case2 c => simp [ofDigits?] at h
    | case3 high low rest ih =>
      obtain ⟨a, ha, b, hb, bytes, hbytes, rfl⟩ := ofDigits?_cons_eq_some.mp h
      obtain ⟨hlta, -⟩ := digit_or_upperDigit_of_digitValue? ha
      obtain ⟨hltb, -⟩ := digit_or_upperDigit_of_digitValue? hb
      exact .cons (digitValue?_iff_denotes.mp ha) (digitValue?_iff_denotes.mp hb)
        (toNat_ofNat_halves hlta hltb) (ih hbytes)
  · intro h
    induction h with
    | nil => rfl
    | cons hhigh hlow hbyte _ ih =>
      refine ofDigits?_cons_eq_some.mpr ⟨_, digitValue?_iff_denotes.mpr hhigh, _,
        digitValue?_iff_denotes.mpr hlow, _, ih, ?_⟩
      rw [← hbyte, UInt8.ofNat_toNat]

theorem exists_spells_iff {cs : List Char} :
    (∃ bs, Spells cs bs) ↔ cs.length % 2 = 0 ∧ ∀ c ∈ cs, ∃ n, Denotes c n := by
  simp only [← ofDigits?_iff_spells, ← digitValue?_iff_denotes, exists_ofDigits?_iff]

end Hex

namespace Json

variable {α : Type}

/-! ## Grammars -/

/-- What spells a value, and which spellings are in the standard form. -/
structure Grammar (α : Type) where
  Spells : Json → α → Prop
  Standard : Json → Prop

namespace Grammar

/-- A reader and a writer go by a grammar. Exactly the spellings of a value are read as it,
what was written is read back, and what was read is written as its one spelling in the
standard form, whichever spelling it was read from. -/
structure Governs (g : Grammar α) (read : Reader α) (write : α → Json) : Prop where
  read_iff : ∀ j a, read j = some a ↔ g.Spells j a
  read_write : ∀ a, read (write a) = some a
  rewrite_iff : ∀ j k, (read j).map write = some k ↔
    ∃ a, g.Spells j a ∧ g.Spells k a ∧ g.Standard k

/-- Arrays of what a grammar spells. -/
def list (g : Grammar α) : Grammar (List α) where
  Spells j as := ∃ items, j = .array items ∧ List.Forall₂ g.Spells items as
  Standard j := ∃ items, j = .array items ∧ ∀ item ∈ items, g.Standard item

namespace Governs

variable {g : Grammar α} {read : Reader α} {write : α → Json}

theorem of_write_iff (hread : ∀ j a, read j = some a ↔ g.Spells j a)
    (hwrite : ∀ a k, write a = k ↔ g.Spells k a ∧ g.Standard k) : g.Governs read write where
  read_iff := hread
  read_write a := (hread _ a).mpr ((hwrite a _).mp rfl).1
  rewrite_iff j k := by simp only [Option.map_eq_some_iff, hread, hwrite]

/-- Each value has one spelling in the standard form. -/
theorem write_iff (h : g.Governs read write) (a : α) (k : Json) :
    write a = k ↔ g.Spells k a ∧ g.Standard k := by
  have hspells : ∀ b, g.Spells (write a) b ↔ a = b := by
    intro b
    rw [← h.read_iff, h.read_write, Option.some.injEq]
  have hrewrite := h.rewrite_iff (write a) k
  simpa only [h.read_write, Option.map_some, Option.some.injEq, hspells, exists_eq_left']
    using hrewrite

end Governs

/-- What goes by a grammar, lists of it go by, too. -/
theorem Governs.list {g : Grammar α} {read : Reader α} {write : α → Json}
    (h : g.Governs read write) : g.list.Governs (readList read) (ofList write) := by
  refine .of_write_iff (fun j as => ?_) (fun as k => ?_)
  · cases j with
    | array items =>
      rw [readList, Result.mapM_eq_some]
      simp only [h.read_iff, Grammar.list, Json.array.injEq, exists_eq_left']
    | _ => simp [readList, Grammar.list]
  · cases k with
    | array items =>
      have hitems : (∀ item ∈ items, g.Standard item) ∧ List.Forall₂ g.Spells items as ↔
          List.Forall₂ (fun item a => item = write a) items as := by
        rw [← List.forall₂_and_left]
        simp only [eq_comm (b := write _), h.write_iff, and_comm]
      simp only [ofList, Grammar.list, Json.array.injEq, exists_eq_left']
      rw [and_comm, hitems, ← List.forall₂_map_right_iff, List.forall₂_eq_eq_eq, eq_comm]
    | _ => simp [ofList, Grammar.list]

end Grammar

/-! ## Texts with a front -/

/-- A text is a row of characters, which may stand behind a given front. -/
def Behind (front : List Char) (j : Json) (row : List Char) : Prop :=
  ∃ s, j = .text s ∧ (s.toList = row ∨ s.toList = front ++ row)

section

variable {f : List Char → Option α} {front : List Char} {s : String} {a : α}

/-- A front that cannot be read itself is taken away where it stands. -/
theorem behind_iff_of_front {row : List Char} (hfront : ∀ row, f (front ++ row) = none)
    (hs : s.toList = front ++ row) :
    (∃ row, Behind front (.text s) row ∧ f row = some a) ↔ f row = some a := by
  constructor
  · intro h
    obtain ⟨other, ⟨t, ht, hother⟩, hf⟩ := h
    obtain rfl := Json.text.inj ht
    cases hother with
    | inl hother =>
      rw [← hother, hs, hfront] at hf
      cases hf
    | inr hother => rwa [List.append_cancel_left (hs.symm.trans hother)]
  · intro h
    exact ⟨row, ⟨s, rfl, .inr hs⟩, h⟩

theorem behind_iff_of_no_front (hs : ∀ row, s.toList = front ++ row → False) :
    (∃ row, Behind front (.text s) row ∧ f row = some a) ↔ f s.toList = some a := by
  constructor
  · intro h
    obtain ⟨row, ⟨t, ht, hrow⟩, hf⟩ := h
    obtain rfl := Json.text.inj ht
    rwa [hrow.resolve_right (hs row)]
  · intro h
    exact ⟨s.toList, ⟨s, rfl, .inl rfl⟩, h⟩

/-- A text without a character of the front is the row itself. -/
theorem Behind.eq_toList {row : List Char} {c : Char} (h : Behind front (.text s) row)
    (hc : c ∈ front) (hs : c ∉ s.toList) : row = s.toList := by
  obtain ⟨t, ht, hrow⟩ := h
  obtain rfl := Json.text.inj ht
  refine (hrow.resolve_right fun hfront => hs ?_).symm
  rw [hfront]
  exact List.mem_append_left _ hc

end

/-! ## Ids -/

/-- An integer spells itself, and a numeral, which may carry a plus sign, its number. -/
def SpellsInteger (j : Json) (n : Int) : Prop :=
  j = .integer n ∨ ∃ (digits : List Char) (m : Nat),
    Behind ['+'] j digits ∧ Decimal.Spells digits m ∧ n = m

/-- Ids as integers; the standard form is a numeral without a sign, and without zeros in front
of its other digits. -/
def idGrammar : Grammar UInt64 where
  Spells j id := SpellsInteger j id.toNat
  Standard j := ∃ s, j = .text s ∧ (∀ c ∈ s.toList, '0' ≤ c ∧ c ≤ '9') ∧
    ∀ rest, s.toList = '0' :: rest → rest = []

theorem ofPlusText?_iff {s : String} {n : Nat} : Decimal.ofPlusText? s = some n ↔
    ∃ digits, Behind ['+'] (.text s) digits ∧ Decimal.Spells digits n := by
  have hfront : ∀ row, Decimal.ofChars? (['+'] ++ row) = none := by
    intro row
    simp [Decimal.ofChars?, Char.isDigit]
  simp only [← Decimal.ofChars?_iff_spells]
  rw [Decimal.ofPlusText?]
  split
  · next digits hs => exact (behind_iff_of_front hfront hs).symm
  · next hs => exact (behind_iff_of_no_front hs).symm

/-- No number is wrapped around. -/
theorem ofNat_eq_some_iff {n : Nat} {id : UInt64} :
    (if n < UInt64.size then some (UInt64.ofNat n) else none) = some id ↔ n = id.toNat := by
  constructor
  · intro h
    split at h
    · next hlt =>
      rw [← Option.some.inj h]
      exact (UInt64.toNat_ofNat_of_lt' hlt).symm
    · cases h
  · intro h
    rw [h, if_pos id.toNat_lt, UInt64.ofNat_toNat]

theorem readId_iff {j : Json} {id : UInt64} : readId j = some id ↔ idGrammar.Spells j id := by
  show readId j = some id ↔ SpellsInteger j id.toNat
  cases j with
  | integer n =>
    have hinteger : SpellsInteger (.integer n) id.toNat ↔ n = id.toNat := by
      simp [SpellsInteger, Behind]
    rw [hinteger, readId]
    by_cases hn : 0 ≤ n
    · have hrange : (0 ≤ n ∧ n < UInt64.size) ↔ n.toNat < UInt64.size := by omega
      simp only [hrange, ofNat_eq_some_iff]
      omega
    · rw [if_neg fun hrange => hn hrange.1]
      simp only [reduceCtorEq, false_iff]
      omega
  | text s =>
    have htext : SpellsInteger (.text s) id.toNat ↔ Decimal.ofPlusText? s = some id.toNat := by
      simp [SpellsInteger, ofPlusText?_iff]
    rw [htext, readId]
    cases Decimal.ofPlusText? s with
    | none => simp
    | some n => rw [Option.some.injEq, ← ofNat_eq_some_iff]
  | _ => simp [readId, SpellsInteger, Behind]

theorem exists_readId_iff {j : Json} :
    (∃ id, readId j = some id) ↔ ∃ n, SpellsInteger j n ∧ 0 ≤ n ∧ n ≤ 2 ^ 64 - 1 := by
  simp only [readId_iff]
  constructor
  · intro h
    obtain ⟨id, hid⟩ := h
    have hlt : id.toNat < 2 ^ 64 := id.toNat_lt
    exact ⟨_, hid, by omega, by omega⟩
  · intro h
    obtain ⟨n, hn, hnonneg, hle⟩ := h
    have hlt : n.toNat < 2 ^ 64 := by omega
    refine ⟨UInt64.ofNat n.toNat, ?_⟩
    show SpellsInteger j (UInt64.ofNat n.toNat).toNat
    rwa [UInt64.toNat_ofNat_of_lt' hlt, Int.toNat_of_nonneg hnonneg]

/-- An id is written as its numeral in standard form. -/
theorem ofId_eq_iff {id : UInt64} {k : Json} :
    ofId id = k ↔ idGrammar.Spells k id ∧ idGrammar.Standard k := by
  constructor
  · rintro rfl
    obtain ⟨-, hdigits, -⟩ := Decimal.ofText?_eq_some.mp (Decimal.ofText?_toText id.toNat)
    refine ⟨readId_iff.mp (readId_ofId id), _, rfl, ?_, fun rest => Decimal.eq_nil_of_toText⟩
    exact fun c hc => Decimal.isDigit_iff.mp (hdigits c hc)
  · intro h
    obtain ⟨hspells, s, rfl, hdigits, hplain⟩ := h
    obtain hinteger | ⟨digits, n, hbehind, hnumeral, hn⟩ := hspells
    · cases hinteger
    · -- there is no sign in front, and no zero to strip
      have hplus : '+' ∉ s.toList := fun hplus => absurd (hdigits '+' hplus) (by decide)
      obtain rfl := hbehind.eq_toList (List.mem_singleton_self '+') hplus
      have hstrip : Decimal.strip s.toList = s.toList := by
        apply Decimal.strip_eq_self
        intro c cs hs
        cases hplain _ hs
      have hread : Decimal.ofText? s = some id.toNat := by
        rw [Int.ofNat_inj.mp hn]
        exact Decimal.ofChars?_iff_spells.mpr hnumeral
      rw [ofId, Decimal.toText_of_ofText? hread, hstrip, String.ofList_toList]

/-! ## Byte strings -/

/-- Byte strings as digits; the standard form is in lower case and has no front. -/
def bytesGrammar : Grammar Bytes where
  Spells j bs := ∃ digits, Behind ['0', 'x'] j digits ∧ Hex.Spells digits bs
  Standard j := ∃ s, j = .text s ∧ ∀ c ∈ s.toList, c ∈ "0123456789abcdef".toList

theorem readBytes_iff {j : Json} {bs : Bytes} :
    readBytes j = some bs ↔ bytesGrammar.Spells j bs := by
  show readBytes j = some bs ↔ ∃ digits, Behind ['0', 'x'] j digits ∧ Hex.Spells digits bs
  have hfront : ∀ row, Hex.ofDigits? (['0', 'x'] ++ row) = none := by
    intro row
    simp [Hex.ofDigits?, Hex.digitValue?]
  simp only [← Hex.ofDigits?_iff_spells]
  cases j with
  | text s =>
    rw [readBytes]
    split
    · next digits hs => exact (behind_iff_of_front hfront hs).symm
    · next hs => exact (behind_iff_of_no_front hs).symm
  | _ => simp [readBytes, Behind]

theorem exists_readBytes_iff {j : Json} : (∃ bs, readBytes j = some bs) ↔
    ∃ digits, Behind ['0', 'x'] j digits ∧ digits.length % 2 = 0 ∧
      ∀ c ∈ digits, ∃ n, Hex.Denotes c n := by
  simp only [readBytes_iff, bytesGrammar, ← Hex.exists_spells_iff]
  rw [exists_comm]
  simp only [exists_and_left]

/-- A byte string is written in digits of the standard form. -/
theorem ofBytes_eq_iff {bs : Bytes} {k : Json} :
    ofBytes bs = k ↔ bytesGrammar.Spells k bs ∧ bytesGrammar.Standard k := by
  constructor
  · rintro rfl
    refine ⟨readBytes_iff.mp (readBytes_ofBytes bs), _, rfl, fun c hc => ?_⟩
    rw [Hex.encode, String.toList_ofList] at hc
    obtain ⟨n, hlt, rfl⟩ := Hex.exists_of_mem_digits hc
    exact List.mem_of_getElem? (Hex.getElem?_lower n hlt)
  · intro h
    obtain ⟨⟨digits, hbehind, hspells⟩, s, rfl, hlower⟩ := h
    have hx : 'x' ∉ s.toList := fun hx => absurd (hlower 'x' hx) (by decide)
    obtain rfl := hbehind.eq_toList (by decide) hx
    have hread := Hex.ofDigits?_iff_spells.mpr hspells
    rw [ofBytes, Hex.encode, Hex.digits_ofDigits? hread fun c hc =>
      Hex.not_upper_of_mem_lower (hlower c hc), String.ofList_toList]

/-! ## Readers and writers -/

/-- Ids, lists of ids and byte strings are read and written by their grammars: an id exactly
where the integer that is spelled is one of 64 bits, whatever the length of its numeral, and
a byte string exactly where the digits behind a front of `0x`, if there is one, are digits
of either case and even in number. -/
theorem readers_by_grammar :
    idGrammar.Governs readId ofId ∧
      idGrammar.list.Governs (readList readId) (ofList ofId) ∧
      bytesGrammar.Governs readBytes ofBytes ∧
      (∀ j, (∃ id, readId j = some id) ↔ ∃ n, SpellsInteger j n ∧ 0 ≤ n ∧ n ≤ 2 ^ 64 - 1) ∧
      ∀ j, (∃ bs, readBytes j = some bs) ↔ ∃ digits, Behind ['0', 'x'] j digits ∧
        digits.length % 2 = 0 ∧ ∀ c ∈ digits, ∃ n, Hex.Denotes c n := by
  have hid : idGrammar.Governs readId ofId :=
    .of_write_iff (fun _ _ => readId_iff) (fun _ _ => ofId_eq_iff)
  have hbytes : bytesGrammar.Governs readBytes ofBytes :=
    .of_write_iff (fun _ _ => readBytes_iff) (fun _ _ => ofBytes_eq_iff)
  exact ⟨hid, hid.list, hbytes, fun _ => exists_readId_iff, fun _ => exists_readBytes_iff⟩

-- the greatest id, behind a sign and zeros, and the number after it
example : readId (.text "+0018446744073709551615") = some 18446744073709551615 ∧
    readId (.text "18446744073709551616") = none ∧ readId (.text "+") = none := by decide

-- one front is taken away, and no more
example : readBytes (.text "0xaB") = some [171] ∧ readBytes (.text "0x") = some [] ∧
    readBytes (.text "0x0x") = none ∧ readBytes (.text "abc") = none := by decide

end Json

end NameService
