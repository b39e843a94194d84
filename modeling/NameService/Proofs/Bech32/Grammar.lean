import NameService.Proofs.Bech32

/-
  The grammar of bech32 strings, and that the reader accepts exactly these.

  `Holds` says when a text is a bech32 string, and of which data, without a word
  on how it is taken apart: the separator is any 1 behind which only symbols
  stand, and letters count in either case. What is proved:
    1. `decode_eq_ok_iff` — a text is read as a human readable part and data if
       and only if it holds this data under this part.
-/

namespace NameService.Bech32

/-- A text holds bytes under a human readable part, given in lower case: the part,
a 1 and symbols, all in one case; the symbols carry the bytes and the checksum. -/
def Holds (text hrp : String) (data : Bytes) : Prop :=
  ∃ (head tail : List Char) (symbols : List Symbol),
    text.toList = head ++ '1' :: tail ∧
      head.map Char.toLower = hrp.toList ∧ tail.map Char.toLower = symbols.map letter ∧
      mixedCase text.toList = false ∧ readable head = true ∧ text.length ≤ maxLength ∧
      residue (expand hrp.toList ++ symbols) = 1 ∧ checksumLength ≤ symbols.length ∧
      bytesOfSymbols (symbols.take (symbols.length - checksumLength)) = data

/-! ## Symbols and their characters -/

theorem toLower_letter (s : Symbol) : (letter s).toLower = letter s :=
  toLower_of_not_isUpper (isUpper_letter s)

/-- A character is read as a symbol exactly if it is the symbol's, in either case. -/
theorem symbol?_eq_some {c : Char} {s : Symbol} : symbol? c = some s ↔ c.toLower = letter s := by
  constructor
  · intro h
    obtain ⟨i, hi, rfl⟩ := Option.map_eq_some_iff.mp h
    obtain ⟨hbound, hchar, -⟩ := List.idxOf?_eq_some_iff.mp hi
    have hlt : i < 2 ^ 5 := hbound
    have hindex : (BitVec.ofNat 5 i).toNat = i := by
      rw [BitVec.toNat_ofNat, Nat.mod_eq_of_lt hlt]
    rw [letter, hindex, List.getD_eq_getElem?_getD, List.getElem?_eq_getElem hbound,
      Option.getD_some]
    exact hchar.symm
  · intro h
    -- the case does not matter, and the letter itself is read back
    have hcase : symbol? c = symbol? (letter s) := by
      rw [symbol?, symbol?, h, toLower_letter]
    rw [hcase, symbol?_letter]

theorem mapM_symbol?_eq_some {cs : List Char} {ss : List Symbol} :
    cs.mapM symbol? = some ss ↔ cs.map Char.toLower = ss.map letter := by
  simp only [Result.mapM_eq_some, symbol?_eq_some]
  rw [← List.forall₂_eq_eq_eq, List.forall₂_map_left_iff, List.forall₂_map_right_iff]

/-! ## Separator -/

theorem eq_append_of_splitAtLast {c : Char} {cs before after : List Char}
    (h : splitAtLast c cs = some (before, after)) : cs = before ++ c :: after := by
  induction cs generalizing before after with
  | nil => cases h
  | cons x xs ih =>
    rw [splitAtLast] at h
    split at h
    · next before' after' hsplit =>
      obtain ⟨rfl, rfl⟩ := Prod.mk.inj (Option.some.inj h)
      rw [ih hsplit]
      rfl
    · split at h
      · next hx =>
        obtain ⟨rfl, rfl⟩ := Prod.mk.inj (Option.some.inj h)
        rw [hx]
        rfl
      · cases h

/-- No 1 stands among characters of symbols, so that the separator is the last one. -/
theorem one_notMem_of_letters {tail : List Char} {symbols : List Symbol}
    (h : tail.map Char.toLower = symbols.map letter) : '1' ∉ tail := by
  intro hone
  have hmem : ('1' : Char).toLower ∈ symbols.map letter := h ▸ List.mem_map_of_mem hone
  exact one_notMem_letters symbols hmem

theorem parts?_eq_some {cs hrp : List Char} {symbols : List Symbol} :
    parts? cs = some (hrp, symbols) ↔ ∃ head tail, cs = head ++ '1' :: tail ∧
      head.map Char.toLower = hrp ∧ tail.map Char.toLower = symbols.map letter ∧
      mixedCase cs = false ∧ readable head = true := by
  simp only [parts?, Option.bind_eq_bind, Option.bind_eq_some_iff]
  constructor
  · rintro ⟨⟨head, tail⟩, hsplit, symbols', hsymbols, h⟩
    split at h
    · cases h
    · next hform =>
      obtain ⟨hmixed, hreadable⟩ : mixedCase cs = false ∧ readable head = true := by
        simpa using hform
      obtain ⟨rfl, rfl⟩ := Prod.mk.inj (Option.some.inj h)
      exact ⟨head, tail, eq_append_of_splitAtLast hsplit, rfl,
        mapM_symbol?_eq_some.mp hsymbols, hmixed, hreadable⟩
  · rintro ⟨head, tail, rfl, rfl, htail, hmixed, hreadable⟩
    refine ⟨(head, tail), splitAtLast_append _ _ _ (one_notMem_of_letters htail), symbols,
      mapM_symbol?_eq_some.mpr htail, ?_⟩
    simp [hmixed, hreadable]

/-! ## Strings -/

/-- The reader accepts exactly the texts of the grammar. -/
theorem decode_eq_ok_iff {text hrp : String} {data : Bytes} :
    decode text = .ok (hrp, data) ↔ Holds text hrp data := by
  constructor
  · intro h
    rw [decode] at h
    split at h
    · cases h
    · next hrp' symbols hparts =>
      obtain ⟨head, tail, htext, hhead, htail, hmixed, hreadable⟩ := parts?_eq_some.mp hparts
      split at h
      · cases h
      · next hcheck =>
        obtain ⟨⟨hlong, hroom⟩, hresidue⟩ : (text.length ≤ maxLength ∧
            checksumLength ≤ symbols.length) ∧ residue (expand hrp' ++ symbols) = 1 := by
          simpa using hcheck
        obtain ⟨rfl, rfl⟩ := Prod.mk.inj (Except.ok.inj h)
        refine ⟨head, tail, symbols, htext, ?_, htail, hmixed, hreadable, hlong, ?_, hroom, rfl⟩
        · rw [String.toList_ofList, hhead]
        · rw [String.toList_ofList, hresidue]
  · rintro ⟨head, tail, symbols, htext, hhead, htail, hmixed, hreadable, hlong, hresidue, hroom,
      rfl⟩
    have hparts : parts? text.toList = some (hrp.toList, symbols) :=
      parts?_eq_some.mpr ⟨head, tail, htext, hhead, htail, hmixed, hreadable⟩
    rw [decode, hparts]
    simp [hlong, hroom, hresidue]

end NameService.Bech32
