import Mathlib.Algebra.Group.Nat.Defs
import NameService.Proofs.Bech32.Grammar

/-
  How many strings hold the same data.

  A reader of strings has the symbols before it and not the bytes, and takes them in
  either case. What is proved:
    1. `eq_checksum` — the last six symbols are told by the others, since symbols that
       follow the residue 0 are told by the residue that they lead to
       (`foldl_step_inj`).
    2. `bytesOfSymbols_eq_iff` — bytes that fill their symbols evenly are carried by the
       symbols that are written for them, and by these with any one more behind them:
       its five bits are fewer than a byte, and are dropped.
    3. `holds_iff_spell` — letter case aside, a string that holds data is `spell` of symbols
       that carry them; `holds_iff_of_even` counts these strings.
-/

namespace NameService.Bech32

/-! ## Checksum -/

/-- A residue whose top symbol is free is shifted, and the symbol fills the place. -/
theorem toNat_step {r : Residue} (h : r.toNat < 2 ^ 25) (s : Symbol) :
    (step r s).toNat = 32 * r.toNat + s.toNat := by
  have htop : (r >>> 25).setWidth 5 = (0 : Symbol) := by
    apply BitVec.eq_of_toNat_eq
    rw [BitVec.toNat_setWidth, BitVec.toNat_ushiftRight, Nat.shiftRight_eq_div_pow,
      Nat.div_eq_of_lt h]
    rfl
  have hfeedback : feedback 0 = 0#30 := by decide
  have hs : s.toNat < 2 ^ 5 := s.isLt
  have hxor : (step r s).toNat = 2 ^ 5 * r.toNat ^^^ s.toNat := by
    rw [step, htop, hfeedback, BitVec.xor_zero, BitVec.toNat_xor, BitVec.toNat_shiftLeft,
      BitVec.toNat_setWidth, Nat.shiftLeft_eq, Nat.mul_comm, Nat.mod_eq_of_lt (by omega),
      Nat.mod_eq_of_lt (by omega)]
  -- the two have no bit in common
  have hdiv := Nat.xor_div_two_pow (a := 2 ^ 5 * r.toNat) (b := s.toNat) (n := 5)
  have hmod := Nat.xor_mod_two_pow (a := 2 ^ 5 * r.toNat) (b := s.toNat) (n := 5)
  rw [Nat.mul_div_cancel_left _ (by decide), Nat.div_eq_of_lt hs, Nat.xor_zero] at hdiv
  rw [Nat.mul_mod_right, Nat.mod_eq_of_lt hs, Nat.zero_xor] at hmod
  rw [hxor]
  omega

/-- Symbols are told by what they lead to, as long as nothing is fed back. -/
theorem foldl_step_inj {r r' : Residue} {ss ts : List Symbol} (hlength : ss.length = ts.length)
    (hroom : ss.length ≤ 6) (hr : r.toNat < 32 ^ (6 - ss.length))
    (hr' : r'.toNat < 32 ^ (6 - ss.length)) (h : ss.foldl step r = ts.foldl step r') :
    r = r' ∧ ss = ts := by
  induction ss generalizing r r' ts with
  | nil =>
    cases ts with
    | nil => exact ⟨h, rfl⟩
    | cons t ts => cases hlength
  | cons s ss ih =>
    cases ts with
    | nil => cases hlength
    | cons t ts =>
      rw [List.length_cons] at hroom hr hr'
      have hle : 32 ^ (6 - (ss.length + 1)) ≤ 32 ^ 5 :=
        Nat.pow_le_pow_right (by decide) (by omega)
      have hwider : 32 ^ (6 - ss.length) = 32 * 32 ^ (6 - (ss.length + 1)) := by
        rw [show 6 - ss.length = 6 - (ss.length + 1) + 1 by omega, Nat.pow_succ, Nat.mul_comm]
      have hs : s.toNat < 32 := s.isLt
      have ht : t.toNat < 32 := t.isLt
      have hstep := toNat_step (r := r) (by omega) s
      have hstep' := toNat_step (r := r') (by omega) t
      obtain ⟨hsame, rfl⟩ := ih (Nat.succ.inj hlength) (by omega) (by omega) (by omega) h
      rw [hsame] at hstep
      have hresidue : r = r' := BitVec.eq_of_toNat_eq (by omega)
      have hsymbol : s = t := BitVec.eq_of_toNat_eq (by omega)
      rw [hresidue, hsymbol]
      exact ⟨rfl, rfl⟩

/-- The same of symbols that stand alone. -/
theorem foldl_step_zero_inj {ss ts : List Symbol} (hlength : ss.length = ts.length)
    (hroom : ss.length ≤ 6) (h : ss.foldl step 0 = ts.foldl step 0) : ss = ts := by
  have hzero : (0 : Residue).toNat < 32 ^ (6 - ss.length) := Nat.pow_pos (by decide)
  exact (foldl_step_inj hlength hroom hzero hzero h).2

/-- No other six symbols make the residue 1. -/
theorem eq_checksum {hrp : List Char} {data last : List Symbol}
    (hlength : last.length = checksumLength)
    (h : residue (expand hrp ++ (data ++ last)) = 1) : last = checksum hrp data := by
  have hcount : last.length = (checksum hrp data).length := by rw [hlength, length_checksum]
  have hsame := h.trans (residue_checksum hrp data).symm
  rw [residue_append, residue_append hrp data (checksum hrp data), hcount,
    BitVec.xor_right_inj] at hsame
  exact foldl_step_zero_inj hcount (Nat.le_of_eq hlength) hsame

/-! ## Regrouping -/

theorem ofNat_number_bits_symbol (s : Symbol) : BitVec.ofNat 5 (number (bits s)) = s := by
  revert s
  decide

theorem symbolsOfBits_bits (s : Symbol) (rest : List Bool) :
    symbolsOfBits (bits s ++ rest) = s :: symbolsOfBits rest := by
  have hbits : symbolsOfBits (bits s ++ rest) =
      BitVec.ofNat 5 (number (bits s)) :: symbolsOfBits rest := rfl
  rw [hbits, ofNat_number_bits_symbol]

/-- Symbols are told by their bits. -/
theorem symbolsOfBits_flatMap (ss : List Symbol) (rest : List Bool) :
    symbolsOfBits (ss.flatMap bits ++ rest) = ss ++ symbolsOfBits rest := by
  induction ss with
  | nil => rfl
  | cons s ss ih =>
    rw [List.flatMap_cons, List.append_assoc, symbolsOfBits_bits, ih, List.cons_append]

theorem bits_ofNat_number_byte (a b c d e f g h : Bool) :
    bits (UInt8.ofNat (number [a, b, c, d, e, f, g, h])).toBitVec = [a, b, c, d, e, f, g, h] := by
  revert a b c d e f g h
  decide

/-- Bytes hold the bits that they were made of, but for the few that are left over. -/
theorem eq_flatMap_bytesOfBits (bs : List Bool) :
    ∃ rest, bs = ((bytesOfBits bs).flatMap fun b => bits b.toBitVec) ++ rest ∧ rest.length < 8 := by
  induction bs using bytesOfBits.induct with
  | case1 a b c d e f g h rest ih =>
    obtain ⟨extra, hrest, hlength⟩ := ih
    refine ⟨extra, ?_, hlength⟩
    rw [bytesOfBits, List.flatMap_cons, bits_ofNat_number_byte, List.append_assoc, ← hrest]
    rfl
  | case2 bs hnone =>
    have hshort : bs.length < 8 := by
      rcases bs with _ | ⟨a, _ | ⟨b, _ | ⟨c, _ | ⟨d, _ | ⟨e, _ | ⟨f, _ | ⟨g, _ | ⟨h, rest⟩⟩⟩⟩⟩⟩⟩⟩
      case cons.cons.cons.cons.cons.cons.cons.cons => exact absurd rfl (hnone _ _ _ _ _ _ _ _ _)
      all_goals simp
    exact ⟨bs, by rw [bytesOfBits_short bs hshort]; rfl, hshort⟩

/-- No bit is filled up behind bytes whose bits come out even. -/
theorem flatMap_bits_symbolsOfBytes {data : Bytes} (h : data.length % 5 = 0) :
    (symbolsOfBytes data).flatMap bits = data.flatMap fun b => bits b.toBitVec := by
  obtain ⟨zeros, hbits, hlength⟩ :=
    flatMap_bits_symbolsOfBits (data.flatMap fun b => bits b.toBitVec)
  have hcount := congrArg List.length hbits
  rw [length_flatMap_bits, List.length_append, length_flatMap_toBitVec] at hcount
  have hnone : zeros = [] := List.length_eq_zero_iff.mp (by omega)
  rw [symbolsOfBytes, hbits, hnone, List.append_nil]

theorem length_symbolsOfBytes_of_even {data : Bytes} (h : data.length % 5 = 0) :
    5 * (symbolsOfBytes data).length = 8 * data.length := by
  have hcount := congrArg List.length (flatMap_bits_symbolsOfBytes h)
  rwa [length_flatMap_bits, length_flatMap_toBitVec] at hcount

/-- The symbols of bytes whose bits come out even: those that are written, and behind them
at most one more, of which no bit is read. -/
theorem bytesOfSymbols_eq_iff {ss : List Symbol} {data : Bytes} (h : data.length % 5 = 0) :
    bytesOfSymbols ss = data ↔
      ss = symbolsOfBytes data ∨ ∃ extra, ss = symbolsOfBytes data ++ [extra] := by
  have heven := flatMap_bits_symbolsOfBytes h
  constructor
  · intro hdata
    obtain ⟨rest, hrest, hlength⟩ := eq_flatMap_bytesOfBits (ss.flatMap bits)
    rw [← bytesOfSymbols, hdata, ← heven] at hrest
    have hss : ss = symbolsOfBytes data ++ symbolsOfBits rest := by
      have hsymbols := symbolsOfBits_flatMap ss []
      rw [List.append_nil, hrest, symbolsOfBits_flatMap] at hsymbols
      simpa [symbolsOfBits] using hsymbols.symm
    have hcount := congrArg List.length hrest
    rw [List.length_append, length_flatMap_bits, length_flatMap_bits] at hcount
    have hfew : ss.length ≤ (symbolsOfBytes data).length + 1 := by omega
    rw [hss, List.length_append] at hfew
    cases hextra : symbolsOfBits rest with
    | nil => exact .inl (by rw [hss, hextra, List.append_nil])
    | cons extra more =>
      rw [hextra, List.length_cons] at hfew
      obtain rfl : more = [] := List.length_eq_zero_iff.mp (by omega)
      exact .inr ⟨extra, by rw [hss, hextra]⟩
  · intro hss
    cases hss with
    | inl hss => rw [hss, bytesOfSymbols_symbolsOfBytes]
    | inr hss =>
      obtain ⟨extra, rfl⟩ := hss
      rw [bytesOfSymbols, List.flatMap_append, heven]
      exact bytesOfBits_flatMap data _ (by simp [bits])

/-! ## Letter case -/

theorem isUpper_iff {c : Char} : c.isUpper = true ↔ 65 ≤ c.toNat ∧ c.toNat ≤ 90 :=
  decide_eq_true_iff

theorem isLower_iff {c : Char} : c.isLower = true ↔ 97 ≤ c.toNat ∧ c.toNat ≤ 122 :=
  Bool.and_eq_true_iff.trans (and_congr decide_eq_true_iff decide_eq_true_iff)

theorem toNat_toLower (c : Char) :
    c.toLower.toNat = if 65 ≤ c.toNat ∧ c.toNat ≤ 90 then c.toNat + 32 else c.toNat := by
  by_cases hrange : 65 ≤ c.toNat ∧ c.toNat ≤ 90
  · have hlower : c.toLower = ⟨c.val + ('a'.val - 'A'.val), _⟩ := dif_pos hrange
    have hsum : (c.val + ('a'.val - 'A'.val)).toNat = (c.toNat + 32) % 2 ^ 32 :=
      UInt32.toNat_add _ _
    rw [if_pos hrange, hlower]
    show (c.val + ('a'.val - 'A'.val)).toNat = _
    omega
  · rw [if_neg hrange]
    exact congrArg Char.toNat (dif_neg hrange)

theorem toNat_toUpper (c : Char) :
    c.toUpper.toNat = if 97 ≤ c.toNat ∧ c.toNat ≤ 122 then c.toNat - 32 else c.toNat := by
  by_cases hrange : 97 ≤ c.toNat ∧ c.toNat ≤ 122
  · have hupper : c.toUpper = ⟨c.val + ('A'.val - 'a'.val), _⟩ := dif_pos hrange
    -- the difference of the two letters wraps around, and so does the sum
    have hsum : (c.val + ('A'.val - 'a'.val)).toNat = (c.toNat + (2 ^ 32 - 32)) % 2 ^ 32 :=
      UInt32.toNat_add _ _
    rw [if_pos hrange, hupper]
    show (c.val + ('A'.val - 'a'.val)).toNat = _
    omega
  · rw [if_neg hrange]
    exact congrArg Char.toNat (dif_neg hrange)

theorem isUpper_toLower (c : Char) : c.toLower.isUpper = false := by
  rw [Bool.eq_false_iff, Ne, isUpper_iff, toNat_toLower]
  split <;> omega

theorem isLower_toUpper (c : Char) : c.toUpper.isLower = false := by
  rw [Bool.eq_false_iff, Ne, isLower_iff, toNat_toUpper]
  split <;> omega

theorem toLower_toLower (c : Char) : c.toLower.toLower = c.toLower :=
  toLower_of_not_isUpper (isUpper_toLower c)

theorem toLower_toUpper (c : Char) : c.toUpper.toLower = c.toLower := by
  apply Char.toNat_inj.mp
  rw [toNat_toLower, toNat_toLower, toNat_toUpper]
  grind

theorem any_map_eq_false {p : Char → Bool} {f : Char → Char} (h : ∀ c, p (f c) = false)
    (cs : List Char) : (cs.map f).any p = false := by
  rw [List.any_map, List.any_eq_false]
  intro c _
  exact Bool.eq_false_iff.mp (h c)

theorem eq_one_of_toLower {c : Char} (h : c.toLower = '1') : c = '1' := by
  have hcode : c.toLower.toNat = 49 := congrArg Char.toNat h
  rw [toNat_toLower] at hcode
  have hone : c.toNat = 49 := by
    split at hcode
    · omega
    · exact hcode
  exact Char.toNat_inj.mp hone

theorem readable_map_toLower (cs : List Char) : readable (cs.map Char.toLower) = readable cs := by
  have hchar : ∀ c : Char, (decide (33 ≤ c.toLower.toNat) && decide (c.toLower.toNat ≤ 126)) =
      (decide (33 ≤ c.toNat) && decide (c.toNat ≤ 126)) := by
    intro c
    rw [toNat_toLower, Bool.eq_iff_iff]
    simp only [Bool.and_eq_true, decide_eq_true_eq]
    split
    · omega
    · rfl
  simp [readable, Function.comp_def, hchar]

theorem toList_toLower (s : String) : s.toLower.toList = s.toList.map Char.toLower :=
  String.toList_map

theorem length_toLower (s : String) : s.toLower.length = s.length := by
  rw [← String.length_toList, toList_toLower, List.length_map, String.length_toList]

/-! ## Strings -/

theorem letter_inj {s t : Symbol} (h : letter s = letter t) : s = t := by
  have hread := symbol?_letter s
  rw [h, symbol?_letter] at hread
  exact (Option.some.inj hread).symm

/-- Strings under a lowercase part are written in lower case. -/
theorem toLower_spell {hrp : String} (h : hrp.toList.map Char.toLower = hrp.toList)
    (symbols : List Symbol) : (spell hrp symbols).toLower = spell hrp symbols := by
  have hletters : Char.toLower ∘ letter = letter := funext toLower_letter
  have hone : ('1' : Char).toLower = '1' := rfl
  rw [← String.toList_inj, toList_toLower, spell, String.toList_ofList, List.map_append,
    List.map_cons, List.map_map, hletters, hone, h]

/-- A string in lower case is in one case. -/
theorem mixedCase_of_toLower_eq {s : String} (h : s.toLower = s) : mixedCase s.toList = false := by
  rw [← h, toList_toLower, mixedCase, any_map_eq_false isUpper_toLower, Bool.false_and]

/-- A string tells its symbols. -/
theorem spell_inj {hrp : String} {ss ts : List Symbol} (h : spell hrp ss = spell hrp ts) :
    ss = ts := by
  have hletters := List.append_cancel_left (String.ofList_injective h)
  have hsymbols := List.map_injective_iff.mpr (fun _ _ => letter_inj) (List.cons.inj hletters).2
  exact (List.append_inj' hsymbols (by rw [length_checksum, length_checksum])).1

/-- A string holds data exactly if, letter case aside, it is the string of symbols that carry
the data. -/
theorem holds_iff_spell {text hrp : String} {data : Bytes} :
    Holds text hrp data ↔
      mixedCase text.toList = false ∧ readable hrp.toList = true ∧
        hrp.toList.map Char.toLower = hrp.toList ∧ text.length ≤ maxLength ∧
        ∃ symbols, text.toLower = spell hrp symbols ∧ bytesOfSymbols symbols = data := by
  constructor
  · intro h
    obtain ⟨head, tail, symbols, htext, hhead, htail, hmixed, hreadable, hlong, hresidue, hroom,
      hdata⟩ := h
    have hlast : (symbols.drop (symbols.length - checksumLength)).length = checksumLength := by
      rw [List.length_drop, Nat.sub_sub_self hroom]
    have hsplit := List.take_append_drop (symbols.length - checksumLength) symbols
    rw [← hsplit] at hresidue
    rw [eq_checksum hlast hresidue] at hsplit
    refine ⟨hmixed, ?_, ?_, hlong, _, ?_, hdata⟩
    · rw [← hhead, readable_map_toLower, hreadable]
    · rw [← hhead, List.map_map]
      exact List.map_congr_left fun c _ => toLower_toLower c
    · rw [← String.toList_inj, toList_toLower, htext, List.map_append, List.map_cons, hhead, htail,
        spell, String.toList_ofList, hsplit]
      rfl
  · intro h
    obtain ⟨hmixed, hreadable, hlower, hlong, symbols, htext, rfl⟩ := h
    rw [← String.toList_inj, toList_toLower, spell, String.toList_ofList] at htext
    obtain ⟨head, rest, hsplit, hhead, hrest⟩ := List.map_eq_append_iff.mp htext
    obtain ⟨one, tail, rfl, hone, htail⟩ := List.map_eq_cons_iff.mp hrest
    rw [eq_one_of_toLower hone] at hsplit
    refine ⟨head, tail, _, hsplit, hhead, htail, hmixed, ?_, hlong, residue_checksum _ _, ?_, ?_⟩
    · rw [← readable_map_toLower, hhead, hreadable]
    · rw [List.length_append, length_checksum]
      exact Nat.le_add_left _ _
    · rw [List.length_append, length_checksum, Nat.add_sub_cancel, List.take_left]

/-- The strings of bytes that fill their symbols evenly: letter case aside, the one that is
written, and those with one more symbol. -/
theorem holds_iff_of_even {text hrp : String} {data : Bytes}
    (hreadable : readable hrp.toList = true) (hhrp : hrp.toList.map Char.toLower = hrp.toList)
    (heven : data.length % 5 = 0) (hroom : hrp.length + 2 * data.length + 8 ≤ maxLength) :
    Holds text hrp data ↔
      mixedCase text.toList = false ∧
        (text.toLower = encode hrp data ∨
          ∃ extra, text.toLower = spell hrp (symbolsOfBytes data ++ [extra])) := by
  rw [holds_iff_spell]
  constructor
  · intro h
    obtain ⟨hcase, -, -, -, symbols, htext, hsymbols⟩ := h
    refine ⟨hcase, ?_⟩
    cases (bytesOfSymbols_eq_iff heven).mp hsymbols with
    | inl hplain =>
      rw [hplain] at htext
      exact .inl htext
    | inr hextra =>
      obtain ⟨extra, rfl⟩ := hextra
      exact .inr ⟨extra, htext⟩
  · intro h
    obtain ⟨hcase, htext⟩ := h
    have hcount := length_symbolsOfBytes_of_even heven
    obtain ⟨symbols, hspell, hsymbols, hfew⟩ : ∃ symbols, text.toLower = spell hrp symbols ∧
        bytesOfSymbols symbols = data ∧ symbols.length ≤ (symbolsOfBytes data).length + 1 := by
      cases htext with
      | inl hplain =>
        exact ⟨_, hplain, (bytesOfSymbols_eq_iff heven).mpr (.inl rfl), Nat.le_succ _⟩
      | inr hextra =>
        obtain ⟨extra, hspell⟩ := hextra
        exact ⟨_, hspell, (bytesOfSymbols_eq_iff heven).mpr (.inr ⟨extra, rfl⟩), by simp⟩
    have hlong := congrArg String.length hspell
    rw [length_toLower, length_spell] at hlong
    exact ⟨hcase, hreadable, hhrp, by omega, symbols, hspell, hsymbols⟩

/-- Only the form of a string depends on the case of its letters. -/
theorem Holds.of_toLower_eq {text text' hrp : String} {data : Bytes} (h : Holds text hrp data)
    (hlower : text'.toLower = text.toLower) (hcase : mixedCase text'.toList = false) :
    Holds text' hrp data := by
  obtain ⟨-, hreadable, hhrp, hlong, symbols, htext, hdata⟩ := holds_iff_spell.mp h
  have hlength : text'.length = text.length := by
    rw [← length_toLower, hlower, length_toLower]
  exact holds_iff_spell.mpr
    ⟨hcase, hreadable, hhrp, hlength ▸ hlong, symbols, hlower.trans htext, hdata⟩

/-- Capitals throughout are one case, and the same string otherwise. -/
theorem Holds.toUpper {text hrp : String} {data : Bytes} (h : Holds text hrp data) :
    Holds text.toUpper hrp data := by
  apply h.of_toLower_eq
  · rw [← String.toList_inj, toList_toLower, toList_toLower, String.toUpper, String.toList_map,
      List.map_map]
    exact List.map_congr_left fun c _ => toLower_toUpper c
  · rw [String.toUpper, String.toList_map, mixedCase, any_map_eq_false isLower_toUpper,
      Bool.and_false]

end NameService.Bech32
