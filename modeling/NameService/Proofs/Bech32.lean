import NameService.Bech32
import NameService.Proofs.Result

/-
  Bech32 strings are read back as they were written.

  What is proved:
    1. `residue_checksum` — a symbol string behind which its checksum is written
       has the residue 1. A step of the residue is linear in exclusive or
       (`step_xor`), so the checksum symbols act on the residue of zeros in
       their place by exclusive or, and six symbols from the residue 0 are
       shifted in without feedback (`foldl_step_symbols`).
    2. `bytesOfSymbols_symbolsOfBytes` — regrouping bits by five and then by
       eight gives the bytes back: fewer than five zeros are filled up, and
       fewer than eight bits left over are dropped.
    3. `decode_encode` — a string that was written under a lowercase, readable
       part is read as that part and its data.
-/

namespace NameService.Bech32

/-! ## Checksum -/

theorem ite_xor (a b : Bool) (k : Residue) :
    (if a ^^ b then k else 0) = (if a then k else 0) ^^^ (if b then k else 0) := by
  cases a <;> cases b <;> simp

theorem feedback_xor (a b : Symbol) : feedback (a ^^^ b) = feedback a ^^^ feedback b := by
  simp only [feedback, BitVec.getLsbD_xor, ite_xor]
  ac_rfl

/-- A step is linear in the residue and the symbol together. -/
theorem step_xor (a b : Residue) (s t : Symbol) :
    step (a ^^^ b) (s ^^^ t) = step a s ^^^ step b t := by
  simp only [step, BitVec.shiftLeft_xor_distrib, BitVec.ushiftRight_xor_distrib,
    BitVec.setWidth_xor, feedback_xor]
  ac_rfl

/-- Symbols act on the sum of two residues as they act on one of them and zeros
act on the other. -/
theorem foldl_step_xor (a b : Residue) (ss : List Symbol) :
    ss.foldl step (a ^^^ b) =
      (List.replicate ss.length 0).foldl step a ^^^ ss.foldl step b := by
  induction ss generalizing a b with
  | nil => rfl
  | cons s ss ih =>
    have hstep : step (a ^^^ b) s = step a 0 ^^^ step b s := by
      simpa using step_xor a b 0 s
    rw [List.foldl_cons, hstep, ih, List.length_cons, List.replicate_succ, List.foldl_cons,
      List.foldl_cons]

/-- A residue whose top symbol is free takes the next symbol without feedback. -/
theorem step_shift (w : Residue) : step (w >>> 5) (w.setWidth 5) = w := by
  have htop : (w >>> 5) >>> 25 = 0#30 := by
    rw [← BitVec.shiftRight_add]
    exact BitVec.ushiftRight_eq_zero (by omega)
  have hfeedback : feedback 0 = 0 := by decide
  rw [step, htop, show (0#30).setWidth 5 = (0 : Symbol) by rfl, hfeedback]
  ext i hi
  simp only [BitVec.getElem_xor, BitVec.getElem_shiftLeft, BitVec.getElem_setWidth,
    BitVec.getLsbD_setWidth]
  by_cases h : i < 5
  · simp [h, BitVec.getLsbD_eq_getElem hi]
  · simp [h, show 5 + (i - 5) = i by omega, BitVec.getLsbD_eq_getElem hi]

/-- The six symbols of a residue lead from 0 to it. -/
theorem foldl_step_symbols (r : Residue) : r.symbols.foldl step 0 = r := by
  have hshift : ∀ n, step (r >>> (n + 5)) ((r >>> n).setWidth 5) = r >>> n := by
    intro n
    rw [BitVec.shiftRight_add]
    exact step_shift (r >>> n)
  have hstart : (0 : Residue) = r >>> 30 := (BitVec.ushiftRight_eq_zero (by omega)).symm
  simp only [Residue.symbols, List.map_cons, List.map_nil, List.foldl_cons, List.foldl_nil]
  rw [hstart, hshift 25, hshift 20, hshift 15, hshift 10, hshift 5, hshift 0,
    BitVec.ushiftRight_zero]

theorem length_checksum (hrp : List Char) (data : List Symbol) :
    (checksum hrp data).length = checksumLength := rfl

/-- The last symbols act on the residue of zeros in their place by exclusive or. -/
theorem residue_append (hrp : List Char) (data last : List Symbol) :
    residue (expand hrp ++ (data ++ last)) =
      residue (expand hrp ++ (data ++ List.replicate last.length 0)) ^^^ last.foldl step 0 := by
  calc residue (expand hrp ++ (data ++ last))
      = last.foldl step (residue (expand hrp ++ data) ^^^ 0) := by simp [residue]
    _ = (List.replicate last.length 0).foldl step (residue (expand hrp ++ data)) ^^^
          last.foldl step 0 := foldl_step_xor (residue (expand hrp ++ data)) 0 last
    _ = residue (expand hrp ++ (data ++ List.replicate last.length 0)) ^^^ last.foldl step 0 := by
        simp [residue]

/-- The checksum makes the residue 1. -/
theorem residue_checksum (hrp : List Char) (data : List Symbol) :
    residue (expand hrp ++ (data ++ checksum hrp data)) = 1 := by
  rw [residue_append, length_checksum, checksumLength, checksum, foldl_step_symbols,
    List.append_assoc, ← BitVec.xor_assoc, BitVec.xor_self, BitVec.zero_xor]

/-! ## Regrouping -/

theorem bits_ofNat_number (a b c d e : Bool) :
    bits (BitVec.ofNat 5 (number [a, b, c, d, e])) = [a, b, c, d, e] := by
  revert a b c d e
  decide

theorem ofNat_number_bits (w : BitVec 8) : BitVec.ofNat 8 (number (bits w)) = w := by
  revert w
  decide

/-- Symbols hold the bits they were made of, and fewer than five zeros. -/
theorem flatMap_bits_symbolsOfBits (bs : List Bool) :
    ∃ zeros, (symbolsOfBits bs).flatMap bits = bs ++ zeros ∧ zeros.length < 5 := by
  induction bs using symbolsOfBits.induct with
  | case1 a b c d e rest ih =>
    obtain ⟨zeros, hrest, hlength⟩ := ih
    refine ⟨zeros, ?_, hlength⟩
    simp only [symbolsOfBits, List.flatMap_cons, hrest, bits_ofNat_number]
    rfl
  | case2 a b c d => exact ⟨[false], by simp [symbolsOfBits, bits_ofNat_number], by decide⟩
  | case3 a b c => exact ⟨[false, false], by simp [symbolsOfBits, bits_ofNat_number], by decide⟩
  | case4 a b =>
    exact ⟨[false, false, false], by simp [symbolsOfBits, bits_ofNat_number], by decide⟩
  | case5 a =>
    exact ⟨[false, false, false, false], by simp [symbolsOfBits, bits_ofNat_number], by decide⟩
  | case6 => exact ⟨[], rfl, by decide⟩

theorem bytesOfBits_short (bs : List Bool) (h : bs.length < 8) : bytesOfBits bs = [] := by
  unfold bytesOfBits
  split
  · simp at h; omega
  · rfl

theorem bytesOfBits_bits (b : UInt8) (rest : List Bool) :
    bytesOfBits (bits b.toBitVec ++ rest) = b :: bytesOfBits rest := by
  have hbyte : UInt8.ofNat (number (bits b.toBitVec)) = b := by
    apply UInt8.toBitVec_inj.mp
    rw [UInt8.toBitVec_ofNat', ofNat_number_bits]
  have hbits : bytesOfBits (bits b.toBitVec ++ rest) =
      UInt8.ofNat (number (bits b.toBitVec)) :: bytesOfBits rest := rfl
  rw [hbits, hbyte]

/-- Bits left over behind whole bytes are dropped. -/
theorem bytesOfBits_flatMap (bs : Bytes) (extra : List Bool) (h : extra.length < 8) :
    bytesOfBits ((bs.flatMap fun b => bits b.toBitVec) ++ extra) = bs := by
  induction bs with
  | nil => exact bytesOfBits_short extra h
  | cons b bs ih => rw [List.flatMap_cons, List.append_assoc, bytesOfBits_bits, ih]

theorem bytesOfSymbols_symbolsOfBytes (bs : Bytes) : bytesOfSymbols (symbolsOfBytes bs) = bs := by
  obtain ⟨zeros, hbits, hlength⟩ :=
    flatMap_bits_symbolsOfBits (bs.flatMap fun b => bits b.toBitVec)
  rw [bytesOfSymbols, symbolsOfBytes, hbits]
  exact bytesOfBits_flatMap bs zeros (by omega)

theorem length_flatMap_bits {n : Nat} (ws : List (BitVec n)) :
    (ws.flatMap bits).length = n * ws.length := by
  induction ws with
  | nil => rfl
  | cons w ws ih =>
    have hbits : (bits w).length = n := by simp [bits]
    rw [List.flatMap_cons, List.length_append, ih, hbits, List.length_cons, Nat.mul_succ]
    omega

theorem length_flatMap_toBitVec (bs : Bytes) :
    (bs.flatMap fun b => bits b.toBitVec).length = 8 * bs.length := by
  have hlength := length_flatMap_bits (bs.map UInt8.toBitVec)
  rwa [List.flatMap_map, List.length_map] at hlength

/-- Symbols are no more than are needed for the bits. -/
theorem length_symbolsOfBytes (bs : Bytes) :
    5 * (symbolsOfBytes bs).length < 8 * bs.length + 5 := by
  obtain ⟨zeros, hbits, hlength⟩ :=
    flatMap_bits_symbolsOfBits (bs.flatMap fun b => bits b.toBitVec)
  have hcount := congrArg List.length hbits
  rw [← symbolsOfBytes, List.length_append, length_flatMap_bits, length_flatMap_toBitVec] at hcount
  omega

/-! ## Strings -/

theorem symbol?_letter (s : Symbol) : symbol? (letter s) = some s := by
  revert s
  decide

theorem letter_ne_one (s : Symbol) : letter s ≠ '1' := by
  revert s
  decide

theorem one_notMem_letters (symbols : List Symbol) : '1' ∉ symbols.map letter := by
  intro h
  obtain ⟨s, _, hs⟩ := List.mem_map.mp h
  exact letter_ne_one s hs

theorem isUpper_letter (s : Symbol) : (letter s).isUpper = false := by
  revert s
  decide

theorem mapM_symbol?_letter (ss : List Symbol) : (ss.map letter).mapM symbol? = some ss := by
  rw [Result.mapM_eq_some, List.forall₂_map_left_iff, List.forall₂_same]
  exact fun s _ => symbol?_letter s

theorem splitAtLast_append (c : Char) (before after : List Char) (h : c ∉ after) :
    splitAtLast c (before ++ c :: after) = some (before, after) := by
  have hafter : splitAtLast c after = none := by
    induction after with
    | nil => rfl
    | cons x xs ih =>
      rw [List.mem_cons, not_or] at h
      simp [splitAtLast, ih h.2, Ne.symm h.1]
  induction before with
  | nil => simp [splitAtLast, hafter]
  | cons x xs ih => simp [splitAtLast, ih]

theorem toLower_of_not_isUpper {c : Char} (h : c.isUpper = false) : c.toLower = c := by
  have hrange : ¬ (c.val ≥ 'A'.val ∧ c.val ≤ 'Z'.val) := of_decide_eq_false h
  exact dif_neg hrange

theorem map_toLower {cs : List Char} (h : cs.all fun c => !c.isUpper) :
    cs.map Char.toLower = cs := by
  rw [List.all_eq_true] at h
  conv => rhs; rw [← List.map_id cs]
  exact List.map_congr_left fun c hc => toLower_of_not_isUpper (by simpa using h c hc)

/-- A string that was written under a lowercase, readable part has the form of a
bech32 string. -/
theorem parts?_encode {hrp : List Char} (symbols : List Symbol) (hreadable : readable hrp = true)
    (hlower : hrp.all fun c => !c.isUpper) :
    parts? (hrp ++ '1' :: symbols.map letter) = some (hrp, symbols) := by
  have hcase : mixedCase (hrp ++ '1' :: symbols.map letter) = false := by
    have hupper : (hrp ++ '1' :: symbols.map letter).any Char.isUpper = false := by
      rw [List.all_eq_true] at hlower
      simp only [List.any_append, List.any_cons, List.any_map, Bool.or_eq_false_iff,
        List.any_eq_false]
      refine ⟨fun c hc => by simpa using hlower c hc, by decide, fun s _ => ?_⟩
      simp [isUpper_letter]
    simp [mixedCase, hupper]
  simp only [parts?, splitAtLast_append _ _ _ (one_notMem_letters symbols), mapM_symbol?_letter,
    hcase, hreadable, map_toLower hlower, Option.bind_eq_bind, Option.bind_some]
  rfl

/-- The string of symbols under a human readable part, with their checksum. -/
def spell (hrp : String) (symbols : List Symbol) : String :=
  String.ofList (hrp.toList ++ '1' :: (symbols ++ checksum hrp.toList symbols).map letter)

theorem length_spell (hrp : String) (symbols : List Symbol) :
    (spell hrp symbols).length = hrp.length + symbols.length + 7 := by
  simp only [spell, String.length_ofList, List.length_append, List.length_cons, List.length_map,
    String.length_toList, length_checksum, checksumLength]
  omega

theorem length_encode (hrp : String) (data : Bytes) :
    (encode hrp data).length = hrp.length + (symbolsOfBytes data).length + 7 :=
  length_spell hrp (symbolsOfBytes data)

/-- What is written is read back. -/
theorem decode_encode (hrp : String) (data : Bytes) (hreadable : readable hrp.toList = true)
    (hlower : hrp.toList.all fun c => !c.isUpper)
    (hlength : (encode hrp data).length ≤ maxLength) :
    decode (encode hrp data) = .ok (hrp, data) := by
  have hparts : parts? (encode hrp data).toList =
      some (hrp.toList, symbolsOfBytes data ++ checksum hrp.toList (symbolsOfBytes data)) := by
    rw [encode, String.toList_ofList]
    exact parts?_encode _ hreadable hlower
  have hresidue := residue_checksum hrp.toList (symbolsOfBytes data)
  have htake : (symbolsOfBytes data ++ checksum hrp.toList (symbolsOfBytes data)).length -
      checksumLength = (symbolsOfBytes data).length := by
    rw [List.length_append, length_checksum, Nat.add_sub_cancel]
  have hroom : ¬ (symbolsOfBytes data ++ checksum hrp.toList (symbolsOfBytes data)).length <
      checksumLength := by
    rw [List.length_append, length_checksum]
    omega
  have hshort : ¬ maxLength < (encode hrp data).length := by omega
  rw [decode, hparts]
  simp only [hresidue, hshort, hroom, htake, List.take_left, bytesOfSymbols_symbolsOfBytes,
    String.ofList_toList, decide_false, ne_eq, not_true_eq_false, Bool.or_false]
  rfl

end NameService.Bech32
