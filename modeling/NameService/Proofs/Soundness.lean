import NameService.Proofs.Refusal

/-
  What is read is well formed.

  Nothing is known of the bytes that a reader is given: fields may come in any order,
  more than once, or with tags that nobody knows. A wallet shows what the reader makes
  of them, so whatever gets through has to be in order. `SignedTransaction.Sound` lists
  what that is, and does not speak of the wire. What is proved:
    1. `Leaf.Read.standard` — the leaves of what is read have the one spelling that
       the chain gives them, and amounts are in range.
    2. `Validator.Reads.isKeyText` — validators are named by keys, of any length.
    3. `SignedTransaction.sound_of_decode` — what is read for a chain is sound for it.
-/

namespace NameService

open Result

variable {network : Network}

/-! ## Conditions -/

/-- A text is an address of a network, in the one spelling of its hash. -/
structure Address.Standard (network : Network) (text : String) : Prop where
  spelling : ∃ hash : Bytes, hash.length = 20 ∧ decodeFor network text = .ok hash ∧
    encode network hash = .ok text
  lowercase : ∀ c ∈ text.toList, c.isUpper = false

/-- An amount in range, without zeros in front of its other digits. -/
structure Amount.Standard (a : Amount) : Prop where
  inRange : a.InRange
  plain : ∀ rest, a.quantity.toList = '0' :: rest → rest = []

/-- A leaf in its standard form. -/
def Leaf.Standard (network : Network) : Leaf → Prop
  | address text => Address.Standard network text
  | amount a => a.Standard
  | memo text => text ≠ ""

/-- A text is `ed25519_` and the lowercase hexadecimal digits of one byte or more. -/
def Validator.IsKeyText (name : String) : Prop :=
  ∃ (digits : List Char) (n : Nat), name = "ed25519_" ++ String.ofList digits ∧ 0 < n ∧
    digits.length = 2 * n ∧ ∀ c ∈ digits, c.isDigit = true ∨ 'a' ≤ c ∧ c ≤ 'f'

/-- What can be relied on in a signed transaction that was read for a chain. -/
structure SignedTransaction.Sound (chainId : String) (s : SignedTransaction) : Prop where
  chain : s.transaction.chainId = chainId
  signatures : ∀ signature ∈ s.signatures, signature.Usable
  addresses : ∀ text, .address text ∈ s.transaction.leaves →
    Address.Standard (Network.ofChainId chainId) text
  amounts : ∀ a, .amount a ∈ s.transaction.leaves → a.Standard
  memos : .memo "" ∉ s.transaction.leaves
  wellFormed : s.transaction.operation.WellFormed
  validators : ∀ p updates, s.transaction.operation = .createProposal p →
    p.action = .enact (.setValidators updates) → ∀ e ∈ updates.entries, Validator.IsKeyText e.1

/-! ## Leaves -/

/-- The spelling of a hash has no capitals. -/
theorem Address.isUpper_of_mem_encode {hash : Bytes} {c : Char}
    (h : c ∈ (Bech32.encode network.hrp hash).toList) : c.isUpper = false := by
  have hhrp : network.hrp.toList.all (fun c => !c.isUpper) = true := by cases network <;> rfl
  rw [Bech32.encode, String.toList_ofList] at h
  rcases List.mem_append.mp h with h | h
  · simpa using List.all_eq_true.mp hhrp c h
  · rcases List.mem_cons.mp h with rfl | h
    · rfl
    · obtain ⟨symbol, -, rfl⟩ := List.mem_map.mp h
      exact Bech32.isUpper_letter symbol

theorem Address.Reads.standard {hash : Bytes} {text : String} (h : Reads network hash text) :
    Standard network text := by
  have hread := h.decodeFor
  have hencode := encode_eq_ok.mpr h
  obtain ⟨hlength, rfl⟩ := h
  exact ⟨⟨hash, hlength, hread, hencode⟩, fun c => isUpper_of_mem_encode⟩

/-- The amount of a coin is in range and has no zeros in front. -/
theorem Amount.standard_of_ofCoin {c : Wire.Coin} {a : Amount} (h : ofCoin c = .ok a) :
    a.Standard where
  inRange := (accepts a).mp ⟨c, toCoin_of_ofCoin h⟩
  plain rest hrest := by
    have hnormal : String.ofList (Decimal.strip a.quantity.toList) = a.quantity :=
      congrArg quantity (normal_of_ofCoin h)
    rw [← String.toList_inj, String.toList_ofList, hrest] at hnormal
    exact Decimal.eq_nil_of_strip_eq_self hnormal

theorem Leaf.Read.standard {leaf : Leaf} (h : leaf.Read network) : leaf.Standard network := by
  cases leaf with
  | address text =>
    obtain ⟨hash, hhash⟩ := h
    exact hhash.standard
  | amount a =>
    obtain ⟨c, hc⟩ := h
    exact Amount.standard_of_ofCoin hc
  | memo text => exact h

/-! ## Validators -/

namespace Validator

theorem isKeyText_name {key : Bytes} (h : key ≠ []) : IsKeyText (name key) :=
  ⟨Hex.digits Hex.digit key, key.length, rfl, List.length_pos_iff.mpr h, Hex.length_digits _ _,
    fun _ hc => isNameDigit_iff.mp (isNameDigit_of_mem hc)⟩

theorem Reads.isKeyText {ms : List Wire.ValidatorUpdate} {updates : SortedMap Int64}
    (h : Reads ms updates) : ∀ e ∈ updates.entries, IsKeyText e.1 := by
  obtain ⟨hkeys, rfl⟩ := h
  intro e he
  obtain ⟨m, hm, rfl⟩ := List.mem_map.mp (SortedMap.mem_of_mem_ofList he)
  exact isKeyText_name (hkeys m hm)

end Validator

theorem Operation.Reads.validators {body : Wire.Body} {operation : Operation}
    (h : Reads network body operation) {p : Proposal} {updates : SortedMap Int64}
    (hoperation : operation = .createProposal p)
    (haction : p.action = .enact (.setValidators updates)) :
    ∀ e ∈ updates.entries, Validator.IsKeyText e.1 := by
  subst hoperation
  cases h with
  | createProposal hp =>
    obtain ⟨w, -, hw⟩ := hp.action
    rw [haction] at hw
    cases hw with
    | applyDiff hupdates => exact hupdates.isKeyText

/-! ## Signed transactions -/

namespace SignedTransaction

/-- Signatures are read from messages that they are written as. -/
theorem Reads.usable {chainId : String} {m : Wire.Tx} {s : SignedTransaction}
    (h : Reads chainId m s) : ∀ signature ∈ s.signatures, signature.Usable := by
  intro signature hsignature
  obtain ⟨w, hw⟩ := Leaf.exists_of_forall₂ h.signatures signature hsignature
  exact (Signature.accepts signature).mp ⟨w, Signature.toWire_of_ofWire hw⟩

/-- What is read for a chain is sound for it, whatever bytes it is read from. -/
theorem sound_of_decode {chainId : String} {bs : Bytes} {s : SignedTransaction}
    (h : decode chainId bs = .ok s) : s.Sound chainId := by
  obtain ⟨m, -, hreads⟩ := reads_of_decode h
  have hleaves : ∀ leaf ∈ s.transaction.leaves, leaf.Standard (Network.ofChainId chainId) := by
    have hnetwork : s.transaction.network = Network.ofChainId chainId :=
      congrArg Network.ofChainId hreads.chainId
    exact fun leaf hleaf => hnetwork ▸ (hreads.leaves leaf hleaf).standard
  obtain ⟨body, -, hoperation⟩ := hreads.operation
  exact {
    chain := hreads.chainId
    signatures := hreads.usable
    addresses := fun text htext => hleaves _ htext
    amounts := fun a ha => hleaves _ ha
    memos := fun hmemo => hleaves _ hmemo rfl
    wellFormed := hoperation.wellFormed
    validators := fun _ _ => hoperation.validators }

/-- An unknown field comes first, no message has a header, and a validator that is named
twice has a key of one byte; what is read is sound. -/
theorem sound_of_decode_short_key :
    ∃ (bs : Bytes) (s : SignedTransaction), decode "local" bs = .ok s ∧ s.Sound "local" ∧
      ∃ p updates, s.transaction.operation = .createProposal p ∧
        p.action = .enact (.setValidators updates) ∧ updates.entries = [("ed25519_ab", 7)] := by
  have hdecode : decode "local" ([120, 1] ++ [18, 40, 18, 34, 10, 32] ++ List.replicate 32 0 ++
        [34, 2, 10, 0] ++ [202, 4, 55, 26, 21, 210, 3, 18] ++ [18, 7, 10, 3, 18, 1, 171, 16, 1] ++
        [18, 7, 10, 3, 18, 1, 171, 16, 7] ++ [42, 8] ++ List.replicate 8 0 ++ [58, 20] ++
        List.replicate 20 0) =
      .ok ⟨⟨"local", none, [], .createProposal {
        title := ""
        action := .enact (.setValidators (SortedMap.ofList [("ed25519_ab", 7)]))
        description := ""
        electionRuleId := 0
        startTime := 0
        author := "tiov1qqqqqqqqqqqqqqqqqqqqqqqqqqqqqqqqzx8n0d" }⟩,
        ⟨0, ⟨.ed25519, List.replicate 32 0⟩, []⟩, []⟩ := by
    decide +kernel
  exact ⟨_, _, hdecode, sound_of_decode hdecode, _, _, rfl, rfl, rfl⟩

end SignedTransaction

end NameService
