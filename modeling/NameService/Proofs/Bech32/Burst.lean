import NameService.Proofs.Bech32.Spelling

/-
  A checksum of six symbols finds every burst of six symbols or fewer.

  A burst is a row of symbols that differs from the one that was written in a few places
  next to each other. What is proved:
    1. `eq_of_step_eq` — a step of the residue can be undone, since the symbol that leaves
       at the top shows in the lowest one (`eq_zero_of_step_eq_zero`). So no symbols behind
       a burst hide what it did (`eq_of_foldl_step_eq`).
    2. `eq_of_residue_eq` — rows of symbols that differ within six places next to each
       other have different residues.
    3. `spell_eq_of_differWithin` — so no string is turned into another one under the same
       part by a burst behind the separator.
-/

namespace NameService

/-- Two rows have the same length, and differ only at places of a window: there are `width`
of these, none in front of `start`. -/
def DifferWithin {α : Type} (start width : Nat) (xs ys : List α) : Prop :=
  xs.length = ys.length ∧
    ∃ first, start ≤ first ∧ ∀ i, i < first ∨ first + width ≤ i → xs[i]? = ys[i]?

namespace DifferWithin

variable {α β : Type} {start width : Nat} {xs ys : List α}

theorem take_eq_of_agree {n : Nat} (h : ∀ i, i < n → xs[i]? = ys[i]?) : xs.take n = ys.take n := by
  apply List.ext_getElem?
  intro i
  rw [List.getElem?_take, List.getElem?_take]
  split
  · next hi => exact h i hi
  · rfl

theorem take_eq (h : DifferWithin start width xs ys) : xs.take start = ys.take start := by
  obtain ⟨-, first, hstart, hagree⟩ := h
  exact take_eq_of_agree fun i hi => hagree i (.inl (by omega))

theorem drop (h : DifferWithin start width xs ys) :
    DifferWithin 0 width (xs.drop start) (ys.drop start) := by
  obtain ⟨hlength, first, hstart, hagree⟩ := h
  refine ⟨by rw [List.length_drop, List.length_drop, hlength], first - start, Nat.zero_le _, ?_⟩
  intro i hi
  rw [List.getElem?_drop, List.getElem?_drop]
  exact hagree (start + i) (by omega)

/-- The row in front of the window, those in it, and the row behind it. -/
theorem exists_window (h : DifferWithin start width xs ys) :
    ∃ before window window' after, xs = before ++ (window ++ after) ∧
      ys = before ++ (window' ++ after) ∧ window.length = window'.length ∧
        window.length ≤ width := by
  obtain ⟨hlength, first, -, hagree⟩ := h
  have hbefore : xs.take first = ys.take first := take_eq_of_agree fun i hi => hagree i (.inl hi)
  have hafter : xs.drop (first + width) = ys.drop (first + width) := by
    apply List.ext_getElem?
    intro i
    rw [List.getElem?_drop, List.getElem?_drop]
    exact hagree (first + width + i) (.inr (Nat.le_add_right _ _))
  have hsplit : ∀ zs : List α,
      zs = zs.take first ++ ((zs.drop first).take width ++ zs.drop (first + width)) := by
    intro zs
    rw [← List.drop_drop, List.take_append_drop, List.take_append_drop]
  refine ⟨xs.take first, (xs.drop first).take width, (ys.drop first).take width,
    xs.drop (first + width), hsplit xs, ?_, ?_, List.length_take_le _ _⟩
  · rw [hbefore, hafter]
    exact hsplit ys
  · rw [List.length_take, List.length_take, List.length_drop, List.length_drop, hlength]

/-- Rows that are put together around a window. -/
theorem of_window {before window window' after : List α} (hstart : start ≤ before.length)
    (hlength : window.length = window'.length) (hwidth : window.length ≤ width) :
    DifferWithin start width (before ++ (window ++ after)) (before ++ (window' ++ after)) := by
  refine ⟨by simp [hlength], before.length, hstart, ?_⟩
  intro i hi
  cases hi with
  | inl hi => rw [List.getElem?_append_left hi, List.getElem?_append_left hi]
  | inr hi =>
    have hbehind : before.length ≤ i := by omega
    rw [List.getElem?_append_right hbehind, List.getElem?_append_right hbehind,
      List.getElem?_append_right (by omega), List.getElem?_append_right (by omega), hlength]

/-- A window is seen through a map that tells its arguments apart. -/
theorem of_map {f : α → β} (hf : Function.Injective f)
    (h : DifferWithin start width (xs.map f) (ys.map f)) : DifferWithin start width xs ys := by
  obtain ⟨hlength, first, hstart, hagree⟩ := h
  refine ⟨by simpa using hlength, first, hstart, ?_⟩
  intro i hi
  have hsame := hagree i hi
  rw [List.getElem?_map, List.getElem?_map] at hsame
  exact Option.map_injective hf hsame

end DifferWithin

namespace Bech32

/-! ## Residues -/

/-- What leaves a residue at the top shows in its lowest symbol. -/
theorem setWidth_step_zero (r : Residue) :
    (step r 0).setWidth 5 = (feedback ((r >>> 25).setWidth 5)).setWidth 5 := by
  ext i hi
  simp [step]

theorem eq_zero_of_setWidth_feedback :
    ∀ top : Symbol, (feedback top).setWidth 5 = (0 : Symbol) → top = 0 := by
  decide

/-- A residue that a zero leads to 0 is 0 itself: nothing was fed back, and nothing shifted. -/
theorem eq_zero_of_step_eq_zero {r : Residue} (h : step r 0 = 0) : r = 0 := by
  have hlow := setWidth_step_zero r
  rw [h] at hlow
  have htop := eq_zero_of_setWidth_feedback _ hlow.symm
  have hfree : r.toNat < 2 ^ 25 := by
    have hdiv := congrArg BitVec.toNat htop
    have hr : r.toNat < 2 ^ 30 := r.isLt
    rw [BitVec.toNat_setWidth, BitVec.toNat_ushiftRight, Nat.shiftRight_eq_div_pow] at hdiv
    simp at hdiv
    omega
  have hshift : 0 = 32 * r.toNat := by
    have hstep := toNat_step hfree 0
    rwa [h] at hstep
  apply BitVec.eq_of_toNat_eq
  show r.toNat = 0
  omega

/-- A step can be undone. -/
theorem eq_of_step_eq {r r' : Residue} {s : Symbol} (h : step r s = step r' s) : r = r' := by
  have hstep : step (r ^^^ r') 0 = 0 := by
    have hlinear := step_xor r r' s s
    rwa [BitVec.xor_self, h, BitVec.xor_self] at hlinear
  exact BitVec.xor_eq_zero_iff.mp (eq_zero_of_step_eq_zero hstep)

/-- Nor does a row of steps lose anything. -/
theorem eq_of_foldl_step_eq (ss : List Symbol) {r r' : Residue}
    (h : ss.foldl step r = ss.foldl step r') : r = r' := by
  induction ss generalizing r r' with
  | nil => exact h
  | cons s ss ih => exact eq_of_step_eq (ih h)

/-- Six symbols or fewer that lead from one residue to another are told by the two. -/
theorem window_eq_of_foldl_step_eq {r : Residue} {window window' : List Symbol}
    (hlength : window.length = window'.length) (hshort : window.length ≤ 6)
    (h : window.foldl step r = window'.foldl step r) : window = window' := by
  -- what `r` adds is the same on both sides
  have hzero : window.foldl step 0 = window'.foldl step 0 := by
    have hr : r ^^^ 0 = r := BitVec.xor_zero
    rw [← hr, foldl_step_xor, foldl_step_xor, hlength] at h
    exact (BitVec.xor_right_inj _).mp h
  exact foldl_step_zero_inj hlength hshort hzero

/-- Symbols that differ within six places next to each other have different residues. -/
theorem eq_of_residue_eq {front ss ts : List Symbol} (hdiffer : DifferWithin 0 6 ss ts)
    (h : residue (front ++ ss) = residue (front ++ ts)) : ss = ts := by
  obtain ⟨before, window, window', after, rfl, rfl, hlength, hshort⟩ := hdiffer.exists_window
  have hwindow : window.foldl step (residue (front ++ before)) =
      window'.foldl step (residue (front ++ before)) := by
    apply eq_of_foldl_step_eq after
    simpa [residue] using h
  rw [window_eq_of_foldl_step_eq hlength hshort hwindow]

/-! ## Strings -/

theorem toList_spell (hrp : String) (symbols : List Symbol) :
    (spell hrp symbols).toList =
      hrp.toList ++ '1' :: (symbols ++ checksum hrp.toList symbols).map letter := by
  rw [spell, String.toList_ofList]

/-- A string under a part without a 1 has its only 1 behind the part. -/
theorem eq_of_spell_eq {hrp : String} {symbols : List Symbol} {before after : List Char}
    (hone : '1' ∉ hrp.toList) (h : (spell hrp symbols).toList = before ++ '1' :: after) :
    before = hrp.toList ∧ after = (symbols ++ checksum hrp.toList symbols).map letter := by
  rw [toList_spell] at h
  obtain ⟨hbefore, -, hafter⟩ :=
    (List.append_cons_inj_of_notMem hone (one_notMem_letters _)).mp h
  exact ⟨hbefore.symm, hafter.symm⟩

/-- Two strings under one part that differ within six characters next to each other, behind
the separator, are the same. -/
theorem spell_eq_of_differWithin {hrp : String} {ss ts : List Symbol}
    (h : DifferWithin (hrp.length + 1) 6 (spell hrp ss).toList (spell hrp ts).toList) :
    spell hrp ss = spell hrp ts := by
  have hdrop : ∀ symbols, (spell hrp symbols).toList.drop (hrp.length + 1) =
      (symbols ++ checksum hrp.toList symbols).map letter := by
    intro symbols
    rw [toList_spell, ← String.length_toList, List.drop_append]
    simp
  have hletters := h.drop
  rw [hdrop, hdrop] at hletters
  have hsymbols := hletters.of_map fun _ _ => letter_inj
  have hresidue := (residue_checksum hrp.toList ss).trans (residue_checksum hrp.toList ts).symm
  rw [spell, spell, eq_of_residue_eq hsymbols hresidue]

/-- A string that holds data and has a lowercase letter is written in lower case. -/
theorem Holds.eq_spell {text hrp : String} {data : Bytes} (h : Holds text hrp data) {c : Char}
    (hmem : c ∈ text.toList) (hlower : c.isLower = true) :
    ∃ symbols, text = spell hrp symbols := by
  obtain ⟨hcase, -, -, -, symbols, htext, -⟩ := holds_iff_spell.mp h
  refine ⟨symbols, ?_⟩
  have hupper : text.toList.all (fun c => !c.isUpper) = true := by
    have hany : text.toList.any Char.isLower = true := List.any_eq_true.mpr ⟨c, hmem, hlower⟩
    rw [mixedCase, hany, Bool.and_true, List.any_eq_false] at hcase
    simpa using hcase
  rw [← htext, ← String.toList_inj, toList_toLower, map_toLower hupper]

end Bech32

end NameService
