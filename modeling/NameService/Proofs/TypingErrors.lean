import NameService.Proofs.Address
import NameService.Proofs.Bech32.Burst

/-
  Typing errors in addresses.

  A text that was typed is compared with the spelling that was meant. The two networks have
  prefixes of different lengths in lower case, without a 1, so that a text of which only the
  part behind the separator is wrong is read under the right prefix or not at all. What is
  proved:
    1. `Address.refused_of_differWithin` — a text that is wrong within six characters next to
       each other, behind the separator, is an address of no network.
    2. `Address.refused_of_substitution` and `Address.refused_of_swap` — nor is a text with
       one wrong character, or with two neighbours that changed places, the prefix and the
       separator included.
    3. `Address.typing_errors_refused` — these three for the spelling of every hash.
-/

namespace NameService

/-! ## Prefixes of networks -/

namespace Network

theorem one_notMem_hrp (n : Network) : '1' ∉ n.hrp.toList := by
  cases n <;> decide

theorem eq_of_length_hrp {n m : Network} (h : n.hrp.toList.length = m.hrp.toList.length) :
    n = m := by
  revert h
  cases n <;> cases m <;> decide

/-- No prefix is another one with one character more behind it. -/
theorem hrp_ne_append (n m : Network) (c : Char) : n.hrp.toList ≠ m.hrp.toList ++ [c] := by
  intro h
  have hfirst := congrArg List.head? h
  have hlength := congrArg List.length h
  revert hfirst hlength
  cases n <;> cases m <;> simp [hrp]

theorem mem_hrp (n : Network) : 'o' ∈ n.hrp.toList ∧ 'v' ∈ n.hrp.toList := by
  cases n <;> decide

end Network

namespace Address

variable {network : Network} {hash : Bytes} {text typed : String}

/-! ## Refusal -/

/-- A text is refused as an address of any network, and is not valid. -/
structure Refused (text : String) : Prop where
  refused_for : ∀ network, ∃ fault, decodeFor network text = .error (.invalidAddress fault)
  invalid : isValid text = false

theorem exists_fault_of_decode {e : Error} (h : decode text = .error e) :
    ∃ fault, e = .invalidAddress fault := by
  rw [decode] at h
  split at h
  · cases h
  · exact ⟨_, (Except.error.inj h).symm⟩
  · exact ⟨_, (Except.error.inj h).symm⟩

/-- A text that is read under no prefix of a network is refused. -/
theorem refused_of_decode
    (h : ∀ (network : Network) (data : Bytes), decode text ≠ .ok ⟨network.hrp, data⟩) :
    Refused text where
  refused_for network := by
    rw [decodeFor]
    cases hdecode : decode text with
    | error e =>
      obtain ⟨fault, rfl⟩ := exists_fault_of_decode hdecode
      exact ⟨fault, rfl⟩
    | ok decoded =>
      have hhrp : decoded.hrp ≠ network.hrp := by
        intro hsame
        apply h network decoded.data
        rw [hdecode, ← hsame]
      rw [Result.ok_bind, if_pos hhrp]
      exact ⟨_, rfl⟩
  invalid := by
    rw [Bool.eq_false_iff]
    intro hvalid
    obtain ⟨other, data, hread, -⟩ := isValid_iff.mp hvalid
    exact h other data hread

/-- What is read under the prefix of a network is a string under this prefix, if it has a
lowercase letter anywhere. -/
theorem eq_spell_of_decode {data : Bytes} (h : decode typed = .ok ⟨network.hrp, data⟩) {c : Char}
    (hmem : c ∈ typed.toList) (hlower : c.isLower = true) :
    ∃ symbols, typed = Bech32.spell network.hrp symbols :=
  (decode_eq_ok.mp h).eq_spell hmem hlower

/-- A text with its 1 behind other characters than those of a network is refused. -/
theorem refused_of_front {front back : List Char} {c : Char}
    (htyped : typed.toList = front ++ '1' :: back) (hmem : c ∈ typed.toList)
    (hlower : c.isLower = true) (hfront : ∀ n : Network, n.hrp.toList ≠ front) :
    Refused typed := by
  apply refused_of_decode
  intro other data hread
  obtain ⟨symbols, rfl⟩ := eq_spell_of_decode hread hmem hlower
  exact hfront other (Bech32.eq_of_spell_eq other.one_notMem_hrp htyped).1.symm

/-- So is one with as many characters in front of its 1 as a prefix has, but other ones. -/
theorem refused_of_wrong_prefix (network : Network) {front back : List Char} {c : Char}
    (htyped : typed.toList = front ++ '1' :: back) (hmem : c ∈ typed.toList)
    (hlower : c.isLower = true) (hlength : front.length = network.hrp.toList.length)
    (hne : front ≠ network.hrp.toList) : Refused typed := by
  apply refused_of_front htyped hmem hlower
  intro other hother
  obtain rfl : other = network := Network.eq_of_length_hrp (by rw [hother, hlength])
  exact hne hother.symm

/-! ## A window behind the separator -/

/-- The characters of a spelling: the prefix, the separator, and no other 1. -/
theorem exists_letters_of_encode (h : encode network hash = .ok text) :
    ∃ letters, text.toList = network.hrp.toList ++ '1' :: letters ∧ '1' ∉ letters := by
  obtain ⟨-, rfl⟩ := encode_eq_ok.mp h
  exact ⟨_, Bech32.toList_spell _ _, Bech32.one_notMem_letters _⟩

theorem refused_of_differWithin (h : encode network hash = .ok text) (hne : typed ≠ text)
    (hdiffer : DifferWithin (network.hrp.length + 1) 6 typed.toList text.toList) :
    Refused typed := by
  obtain ⟨letters, hletters, -⟩ := exists_letters_of_encode h
  have hfront : typed.toList.take (network.hrp.length + 1) = network.hrp.toList ++ ['1'] := by
    rw [hdiffer.take_eq, hletters, ← String.length_toList, List.take_append,
      List.take_of_length_le (Nat.le_succ _), Nat.add_sub_cancel_left]
    rfl
  have htyped : typed.toList =
      network.hrp.toList ++ '1' :: typed.toList.drop (network.hrp.length + 1) := by
    have hsplit := List.take_append_drop (network.hrp.length + 1) typed.toList
    rw [hfront, List.append_assoc] at hsplit
    exact hsplit.symm
  have hmem : 'o' ∈ typed.toList := by
    rw [htyped]
    exact List.mem_append_left _ network.mem_hrp.1
  apply refused_of_decode
  intro other data hread
  obtain ⟨symbols, rfl⟩ := eq_spell_of_decode hread hmem (by decide)
  -- the separator is where it was, and so the prefix is the right one
  obtain ⟨hhrp, -⟩ := Bech32.eq_of_spell_eq other.one_notMem_hrp htyped
  obtain rfl : network = other := Network.hrp_inj (String.toList_inj.mp hhrp)
  obtain ⟨-, rfl⟩ := encode_eq_ok.mp h
  exact hne (Bech32.spell_eq_of_differWithin hdiffer)

/-- The same of a window that is given with what stands around it. -/
theorem refused_of_window (h : encode network hash = .ok text)
    {before rest window window' after : List Char}
    (htext : text.toList = before ++ (window ++ after))
    (htyped : typed.toList = before ++ (window' ++ after))
    (hbefore : before = network.hrp.toList ++ '1' :: rest) (hne : window' ≠ window)
    (hlength : window'.length = window.length) (hshort : window'.length ≤ 6) : Refused typed := by
  apply refused_of_differWithin h
  · intro hsame
    rw [hsame, htext] at htyped
    have hrest := List.append_cancel_left htyped
    exact hne (List.append_cancel_right hrest).symm
  · rw [htyped, htext]
    have hbehind : network.hrp.length + 1 ≤ before.length := by
      rw [hbefore, List.length_append, List.length_cons, String.length_toList]
      omega
    exact DifferWithin.of_window hbehind hlength hshort

/-! ## Single characters and neighbours -/

/-- Where a character of a list stands that has another one in a known place. -/
theorem place_of_append_eq {before after front back : List Char} {x y : Char}
    (h : before ++ x :: after = front ++ y :: back) :
    (∃ rest, front = before ++ x :: rest ∧ after = rest ++ y :: back) ∨
      (before = front ∧ x = y ∧ after = back) ∨
        ∃ rest, before = front ++ y :: rest ∧ back = rest ++ x :: after := by
  cases List.append_eq_append_iff.mp h with
  | inl hfront =>
    obtain ⟨middle, hfront, hmiddle⟩ := hfront
    cases middle with
    | nil =>
      obtain ⟨hsame, hback⟩ := List.cons.inj hmiddle
      exact .inr (.inl ⟨by rw [hfront, List.append_nil], hsame, hback⟩)
    | cons z rest =>
      obtain ⟨rfl, hafter⟩ := List.cons.inj hmiddle
      exact .inl ⟨rest, hfront, hafter⟩
  | inr hbefore =>
    obtain ⟨middle, hbefore, hmiddle⟩ := hbefore
    cases middle with
    | nil =>
      obtain ⟨hsame, hback⟩ := List.cons.inj hmiddle
      exact .inr (.inl ⟨by rw [hbefore, List.append_nil], hsame.symm, hback.symm⟩)
    | cons z rest =>
      obtain ⟨rfl, hback⟩ := List.cons.inj hmiddle
      exact .inr (.inr ⟨rest, hbefore, hback⟩)

/-- One wrong character leaves a lowercase letter of the prefix. -/
theorem exists_isLower_of_substitution (h : encode network hash = .ok text)
    {before after : List Char} {x c : Char} (htext : text.toList = before ++ x :: after)
    (htyped : typed.toList = before ++ c :: after) : ∃ d ∈ typed.toList, d.isLower = true := by
  obtain ⟨letters, hletters, -⟩ := exists_letters_of_encode h
  have hkept : ∀ d ∈ network.hrp.toList, d ≠ x → d ∈ typed.toList := by
    intro d hd hdx
    have hmem : d ∈ text.toList := hletters ▸ List.mem_append_left _ hd
    rw [htext] at hmem
    rw [htyped]
    simp only [List.mem_append, List.mem_cons] at hmem ⊢
    tauto
  by_cases ho : 'o' = x
  · exact ⟨'v', hkept _ network.mem_hrp.2 (ho ▸ by decide), by decide⟩
  · exact ⟨'o', hkept _ network.mem_hrp.1 ho, by decide⟩

/-- One wrong character makes no address. -/
theorem refused_of_substitution (h : encode network hash = .ok text) {before after : List Char}
    {x c : Char} (htext : text.toList = before ++ x :: after) (hne : c ≠ x)
    (htyped : typed.toList = before ++ c :: after) : Refused typed := by
  obtain ⟨letters, hletters, hone⟩ := exists_letters_of_encode h
  obtain ⟨d, hd, hlower⟩ := exists_isLower_of_substitution h htext htyped
  rcases place_of_append_eq (htext.symm.trans hletters) with
    ⟨rest, hfront, hafter⟩ | ⟨hbefore, hsep, hafter⟩ | ⟨rest, hbefore, hback⟩
  · -- in the prefix
    have htyped' : typed.toList = (before ++ c :: rest) ++ '1' :: letters := by
      rw [htyped, hafter, List.append_assoc, List.cons_append]
    apply refused_of_wrong_prefix network htyped' hd hlower
    · rw [hfront]
      simp
    · rw [hfront]
      simp [hne]
  · -- the separator
    apply refused_of_decode
    intro other data hread
    obtain ⟨symbols, rfl⟩ := eq_spell_of_decode hread hd hlower
    have hmem : '1' ∈ before ++ c :: after := by
      rw [← htyped, Bech32.toList_spell]
      simp
    rw [hbefore, hafter, List.mem_append, List.mem_cons] at hmem
    rcases hmem with hmem | hmem | hmem
    · exact network.one_notMem_hrp hmem
    · exact hne (hmem.symm.trans hsep.symm)
    · exact hone hmem
  · -- behind the separator
    have hcx : [c] ≠ [x] := fun hsame => hne (List.singleton_inj.mp hsame)
    exact refused_of_window h htext htyped hbefore hcx rfl (by simp)

/-- Two different neighbours that changed places make no address. -/
theorem refused_of_swap (h : encode network hash = .ok text) {before after : List Char}
    {x y : Char} (htext : text.toList = before ++ x :: y :: after) (hne : x ≠ y)
    (htyped : typed.toList = before ++ y :: x :: after) : Refused typed := by
  obtain ⟨letters, hletters, -⟩ := exists_letters_of_encode h
  have hmem : 'o' ∈ typed.toList := by
    have htext' : 'o' ∈ text.toList := hletters ▸ List.mem_append_left _ network.mem_hrp.1
    rw [htext] at htext'
    rw [htyped]
    simp only [List.mem_append, List.mem_cons] at htext' ⊢
    tauto
  have hlower : ('o' : Char).isLower = true := by decide
  rcases place_of_append_eq (htext.symm.trans hletters) with
    ⟨rest, hfront, hafter⟩ | ⟨hbefore, rfl, hafter⟩ | ⟨rest, hbefore, hback⟩
  · cases rest with
    | nil =>
      -- the last character of the prefix and the separator
      obtain ⟨rfl, rfl⟩ := List.cons.inj hafter
      refine refused_of_front htyped hmem hlower fun other hother => ?_
      exact network.hrp_ne_append other x (by rw [hother, hfront])
    | cons z rest =>
      -- in the prefix
      obtain ⟨rfl, rfl⟩ := List.cons.inj hafter
      have htyped' : typed.toList = (before ++ y :: x :: rest) ++ '1' :: letters := by
        rw [htyped]
        simp
      apply refused_of_wrong_prefix network htyped' hmem hlower
      · rw [hfront]
        simp
      · rw [hfront]
        simp [Ne.symm hne]
  · -- the separator and the first symbol
    have htyped' : typed.toList = (before ++ [y]) ++ '1' :: after := by
      rw [htyped]
      simp
    refine refused_of_front htyped' hmem hlower fun other hother => ?_
    exact other.hrp_ne_append network y (by rw [hother, hbefore])
  · -- behind the separator
    have hyx : [y, x] ≠ [x, y] := fun hsame => hne (List.cons.inj hsame).1.symm
    exact refused_of_window h htext htyped hbefore hyx rfl (by simp)

/-! ## All errors -/

/-- Every hash has a spelling on each network, and no text is taken for an address that was
meant to be this spelling and has errors within six characters next to each other behind the
separator, or one wrong character or two swapped neighbours anywhere. -/
theorem typing_errors_refused (network : Network) (hlength : hash.length = 20) :
    ∃ text, encode network hash = .ok text ∧
      (∀ typed : String, typed ≠ text →
        DifferWithin (network.hrp.length + 1) 6 typed.toList text.toList → Refused typed) ∧
      (∀ before after x c, text.toList = before ++ x :: after → c ≠ x →
        Refused (String.ofList (before ++ c :: after))) ∧
      ∀ before after x y, text.toList = before ++ x :: y :: after → x ≠ y →
        Refused (String.ofList (before ++ y :: x :: after)) := by
  obtain ⟨text, htext⟩ := exists_denotes network hlength
  refine ⟨text, htext.written, fun typed => refused_of_differWithin htext.written, ?_, ?_⟩
  · intro before after x c hsplit hne
    exact refused_of_substitution htext.written hsplit hne (String.toList_ofList)
  · intro before after x y hsplit hne
    exact refused_of_swap htext.written hsplit hne (String.toList_ofList)

/-- A wrong last character, two swapped neighbours, and six wrong characters, among them a 1,
a capital and one that is no letter of the alphabet. -/
theorem typing_errors_refused_three :
    ∃ hash : Bytes, hash.length = 20 ∧
      encode .testnet hash = .ok "tiov17m9dug55pryn525drqwk9m7wgmlkp5ss4j2mky" ∧
      Refused "tiov17m9dug55pryn525drqwk9m7wgmlkp5ss4j2mkz" ∧
      Refused "tiov17m9dug55pryn525drqwk9m7wgmlkp5ss42jmky" ∧
      Refused "tiov17m9dug55pryn525drqwk9m7wgmlk1éQsé12mky" := by
  let hash : Bytes := [246, 202, 222, 34, 148, 8, 201, 58, 42, 141, 24, 29, 98, 239, 206, 70, 255,
    96, 210, 16]
  obtain ⟨text, htext, hwindow, hsubstitution, hswap⟩ :=
    typing_errors_refused .testnet (show hash.length = 20 from rfl)
  have hvalue : encode .testnet hash = .ok "tiov17m9dug55pryn525drqwk9m7wgmlkp5ss4j2mky" := by
    decide +kernel
  obtain rfl := Except.ok.inj (htext.symm.trans hvalue)
  have hdiffer : DifferWithin 5 6 "tiov17m9dug55pryn525drqwk9m7wgmlk1éQsé12mky".toList
      "tiov17m9dug55pryn525drqwk9m7wgmlkp5ss4j2mky".toList := by
    have htyped : "tiov17m9dug55pryn525drqwk9m7wgmlk1éQsé12mky".toList =
        "tiov17m9dug55pryn525drqwk9m7wgmlk".toList ++ ("1éQsé1".toList ++ "2mky".toList) := by
      decide +kernel
    have hmeant : "tiov17m9dug55pryn525drqwk9m7wgmlkp5ss4j2mky".toList =
        "tiov17m9dug55pryn525drqwk9m7wgmlk".toList ++ ("p5ss4j".toList ++ "2mky".toList) := by
      decide +kernel
    rw [htyped, hmeant]
    exact .of_window (by decide +kernel) (by decide +kernel) (by decide +kernel)
  refine ⟨hash, rfl, hvalue, ?_, ?_, hwindow _ (by decide) hdiffer⟩
  · exact hsubstitution "tiov17m9dug55pryn525drqwk9m7wgmlkp5ss4j2mk".toList [] 'y' 'z'
      (by decide +kernel) (by decide)
  · exact hswap "tiov17m9dug55pryn525drqwk9m7wgmlkp5ss4".toList "mky".toList 'j' '2'
      (by decide +kernel) (by decide)

end Address

end NameService
