import NameService.Proofs.Accepts
import NameService.Proofs.Agreement
import NameService.Proofs.Bech32.Grammar
import NameService.Proofs.Fields
import NameService.Proofs.Leaf

/-
  Which signed transactions can be written.

  `SignedTransaction.Acceptable` lists what the chain asks for, and does not speak
  of the order in which the writer checks it, or of where it does. Addresses,
  amounts and memos have to be valid wherever they stand, so that the conditions
  on them are about the leaves of the transaction; what is left are the forms of
  some byte strings and texts (`WellFormed`), and the rules that the chain has
  beyond forms (`Permitted`). What is proved:
    1. `X.accepts` — the writer of each part accepts exactly what the conditions
       on this part allow.
    2. `SignedTransaction.encode_of_strict` — a strict writer writes what a lenient
       one does.
    3. `SignedTransaction.encode_eq_ok_iff_acceptable` — a signed transaction can
       be written if and only if it is acceptable.
-/

namespace NameService

open Result

variable {network : Network} {strict : Bool}

/-! ## Conditions on leaves -/

/-- A text is an address of a network: a bech32 string of 20 bytes under the prefix
of the network. -/
def Address.Spelled (network : Network) (text : String) : Prop :=
  ∃ hash : Bytes, hash.length = 20 ∧ Bech32.Holds text network.hrp hash

/-- An amount counts billionths by a numeral, and is below 2^63 whole units. -/
structure Amount.InRange (a : Amount) : Prop where
  billionths : a.fractionalDigits = 9
  nonempty : a.quantity ≠ ""
  digits : ∀ c ∈ a.quantity.toList, c.isDigit = true
  bounded : Decimal.value a.quantity.toList < 2 ^ 63 * 10 ^ 9

/-- A leaf that can be written. -/
def Leaf.Valid (network : Network) : Leaf → Prop
  | address text => Address.Spelled network text
  | amount a => a.InRange
  | memo text => (Bytes.ofText text).length ≤ 128

@[simp] theorem Leaf.valid_address {text : String} :
    (address text).Valid network ↔ Address.Spelled network text := Iff.rfl

@[simp] theorem Leaf.valid_amount {a : Amount} : (amount a).Valid network ↔ a.InRange := Iff.rfl

@[simp] theorem Leaf.valid_memo {text : String} :
    (memo text).Valid network ↔ (Bytes.ofText text).length ≤ 128 := Iff.rfl

/-! ## Conditions on the rest -/

/-- A text names a validator: it is `ed25519_` and 64 lowercase hexadecimal digits. -/
def Validator.IsName (name : String) : Prop :=
  ∃ digits : List Char, name.toList = "ed25519_".toList ++ digits ∧ digits.length = 64 ∧
    ∀ c ∈ digits, c.isDigit = true ∨ 'a' ≤ c ∧ c ≤ 'f'

def Measure.WellFormed : Measure → Prop
  | .updateElectionRule rule =>
    (∀ f ∈ rule.threshold, f.denominator ≠ 0) ∧ (∀ f ∈ rule.quorum, f.denominator ≠ 0)
  | .executeMigration id => id ≠ ""
  | _ => True

/-- The validators of a measure, if it names any, are named by their keys. -/
def Measure.Permitted : Measure → Prop
  | .setValidators updates => ∀ e ∈ updates.entries, Validator.IsName e.1
  | _ => True

/-- A batch holds transfers only. -/
def Action.WellFormed : Action → Prop
  | .enact measure => measure.WellFormed
  | .batch members => ∀ member ∈ members, ∃ transfer, member = .enact (.send transfer)

def Action.Permitted : Action → Prop
  | .enact measure => measure.Permitted
  | .batch _ => True

/-- Of three parties exactly one is named. -/
def EscrowParties.NamesOne (p : EscrowParties) : Prop :=
  (p.sender ≠ none ∧ p.arbiter = none ∧ p.recipient = none) ∨
    (p.sender = none ∧ p.arbiter ≠ none ∧ p.recipient = none) ∨
    (p.sender = none ∧ p.arbiter = none ∧ p.recipient ≠ none)

def Operation.WellFormed : Operation → Prop
  | .swapOffer offer => offer.hash.length = 32
  | .swapClaim swapId preimage => swapId.length = 8 ∧ preimage.length = 32
  | .swapAbort swapId => swapId.length = 8
  | .addAccountCertificate _ _ certificate => certificate ≠ []
  | .deleteAccountCertificate _ _ certificateHash => certificateHash ≠ []
  | .createProposal proposal => proposal.action.WellFormed
  | _ => True

/-- A username comes with its namespace, one party of an escrow is changed at a time,
and when `strict` a vote names its voter. -/
def Operation.Permitted (strict : Bool) : Operation → Prop
  | .registerUsername username _ => ∃ name : String, username = name ++ "*iov"
  | .updateEscrowParties parties => parties.NamesOne
  | .vote v => strict = true → v.voter ≠ none
  | .createProposal proposal => proposal.action.Permitted
  | _ => True

/-- A signature of the scheme ed25519, by a key of its length. -/
def Signature.Usable (s : Signature) : Prop :=
  s.publicKey.algorithm = .ed25519 ∧ s.publicKey.data.length = 32

/-- What the chain asks of a signed transaction. -/
structure SignedTransaction.Acceptable (strict : Bool) (s : SignedTransaction) : Prop where
  signatures : ∀ signature ∈ s.signatures, signature.Usable
  addresses : ∀ text, .address text ∈ s.transaction.leaves →
    Address.Spelled s.transaction.network text
  amounts : ∀ a, .amount a ∈ s.transaction.leaves → a.InRange
  memos : ∀ text, .memo text ∈ s.transaction.leaves → (Bytes.ofText text).length ≤ 128
  wellFormed : s.transaction.operation.WellFormed
  permitted : s.transaction.operation.Permitted strict

/-! ## Fields -/

namespace Address

theorem decode_eq_ok {text hrp : String} {data : Bytes} :
    decode text = .ok ⟨hrp, data⟩ ↔ Bech32.Holds text hrp data := by
  rw [← Bech32.decode_eq_ok_iff, decode]
  cases Bech32.decode text with
  | error fault => cases fault <;> simp
  | ok parts => simp [Prod.ext_iff]

/-- An address of a network holds 20 bytes under the prefix of the network. -/
theorem decodeFor_iff_holds {network : Network} {text : String} {hash : Bytes} :
    decodeFor network text = .ok hash ↔ hash.length = 20 ∧ Bech32.Holds text network.hrp hash := by
  rw [decodeFor_eq_ok, decode_eq_ok, and_comm]
  rfl

theorem accepts (network : Network) (text : String) :
    Accepts (decodeFor network text) (Spelled network text) :=
  exists_congr fun _ => decodeFor_iff_holds

theorem accepts? (network : Network) (o : Option String) :
    Accepts (decodeFor? network o) (∀ text ∈ o, Spelled network text) := by
  cases o with
  | none => exact iff_of_true ⟨[], rfl⟩ (by simp)
  | some text => exact (accepts network text).congr (by simp)

end Address

theorem Amount.accepts (a : Amount) : Accepts a.toCoin a.InRange := by
  have hdigits : a.fractionalDigits.toNat = places ↔ a.fractionalDigits = 9 :=
    UInt32.toNat_inj (b := 9)
  have hbound : ∀ n, n / unit < 2 ^ 63 ↔ n < 2 ^ 63 * 10 ^ 9 :=
    fun n => Nat.div_lt_iff_lt_mul (by decide)
  constructor
  · rintro ⟨c, hc⟩
    obtain ⟨hplaces, n, hn, hlt, -⟩ := toCoin_eq_ok.mp hc
    obtain ⟨hne, hall, rfl⟩ := Decimal.ofText?_eq_some.mp hn
    exact ⟨hdigits.mp hplaces, hne, hall, (hbound _).mp hlt⟩
  · rintro ⟨hnine, hne, hall, hlt⟩
    have hnumber := Decimal.ofText?_eq_some.mpr ⟨hne, hall, rfl⟩
    exact ⟨_, toCoin_eq_ok.mpr ⟨hdigits.mpr hnine, _, hnumber, (hbound _).mpr hlt, rfl⟩⟩

theorem Memo.accepts (memo : Option String) :
    Accepts (Memo.encode memo) (∀ text ∈ memo, (Bytes.ofText text).length ≤ 128) := by
  have hlength : (∀ text ∈ memo, (Bytes.ofText text).length ≤ 128) ↔
      (Bytes.ofText (memo.getD "")).length ≤ limit := by
    cases memo with
    | none => simp [show (Bytes.ofText "").length = 0 from rfl]
    | some text => simp [limit]
  simp only [Memo.encode]
  split
  · next h => exact iff_of_true ⟨_, rfl⟩ (hlength.mpr h)
  · next h => exact (Accepts.error _).congr (iff_of_false id (h ∘ hlength.mp))

namespace Check

theorem accepts_present (field : String) (bs : Bytes) : Accepts (present field bs) (bs ≠ []) := by
  simp [Accepts, present_eq_ok]

theorem accepts_exactly (field : String) (length : Nat) (bs : Bytes) :
    Accepts (exactly field length bs) (bs.length = length) := by
  simp [Accepts, exactly_eq_ok]

end Check

namespace Validator

/-- Digits of half bytes are lowercase hexadecimal digits. -/
theorem isNameDigit_digit : ∀ n < 16, isNameDigit (Hex.digit n) = true := by
  decide

theorem isNameDigit_iff {c : Char} :
    isNameDigit c = true ↔ c.isDigit = true ∨ 'a' ≤ c ∧ c ≤ 'f' := by
  simp [isNameDigit]

/-- Keys are spelled in lowercase hexadecimal digits. -/
theorem isNameDigit_of_mem {key : Bytes} {c : Char} (h : c ∈ Hex.digits Hex.digit key) :
    isNameDigit c = true := by
  obtain ⟨n, hlt, rfl⟩ := Hex.exists_of_mem_digits h
  exact isNameDigit_digit n hlt

theorem isName_name {key : Bytes} (h : key.length = 32) : IsName (name key) := by
  refine ⟨Hex.digits Hex.digit key, ?_, by rw [Hex.length_digits, h], ?_⟩
  · rw [name, Hex.encode, String.toList_append, String.toList_ofList, keyHeader]
  · exact fun c hc => isNameDigit_iff.mp (isNameDigit_of_mem hc)

theorem exists_digitValue? {c : Char} (h : isNameDigit c = true) :
    ∃ n, Hex.digitValue? c = some n := by
  rcases isNameDigit_iff.mp h with hdigit | hletter
  · exact ⟨_, if_pos (Decimal.isDigit_iff.mp hdigit)⟩
  · rw [Hex.digitValue?, if_pos hletter]
    split
    · exact ⟨_, rfl⟩
    · exact ⟨_, rfl⟩

theorem accepts (validator : String) : Accepts (ofName validator) (IsName validator) := by
  constructor
  · rintro ⟨key, hkey⟩
    obtain ⟨hname, hlength⟩ := name_of_ofName hkey
    exact hname ▸ isName_name hlength
  · rintro ⟨digits, hsplit, hlength, hdigits⟩
    have hprefix : keyHeader.toList.isPrefixOf? validator.toList = some digits :=
      List.isPrefixOf?_eq_some_iff_append_eq.mpr hsplit.symm
    have hall : ∀ c ∈ digits, isNameDigit c = true :=
      fun c hc => isNameDigit_iff.mpr (hdigits c hc)
    have hform : (decide (digits.length = 2 * keyLength) && digits.all isNameDigit) = true := by
      simpa using ⟨hlength, hall⟩
    obtain ⟨key, hkey⟩ := Hex.exists_ofDigits?_iff.mpr
      ⟨by omega, fun c hc => exists_digitValue? (hall c hc)⟩
    refine ⟨key, ?_⟩
    simp only [ofName, hprefix, if_pos hform, hkey]

/-- The names are the texts that `name` gives to keys of full length. -/
theorem isName_iff {validator : String} :
    IsName validator ↔ ∃ key : Bytes, key.length = 32 ∧ validator = name key := by
  constructor
  · intro h
    obtain ⟨key, hkey⟩ := (accepts validator).mpr h
    obtain ⟨hname, hlength⟩ := name_of_ofName hkey
    exact ⟨key, hlength, hname.symm⟩
  · rintro ⟨key, hlength, rfl⟩
    exact isName_name hlength

theorem updates_accepts (updates : SortedMap Int64) :
    Accepts (updatesToWire updates) (∀ e ∈ updates.entries, IsName e.1) :=
  Accepts.mapM (f := fun e : String × Int64 => ofName e.1 >>= fun key =>
    pure (⟨some ⟨scheme, key⟩, e.2⟩ : Wire.ValidatorUpdate))
    (fun e => (accepts e.1).bind_pure _) updates.entries

end Validator

theorem Elector.accepts (electors : SortedMap UInt32) :
    Accepts (updatesToWire network electors)
      (∀ leaf ∈ Elector.leaves electors, leaf.Valid network) := by
  have hentries := Accepts.mapM
    (fun e : String × UInt32 => (Address.accepts network e.1).bind_pure
      fun address => (⟨address, e.2⟩ : Wire.Elector)) electors.entries
  exact hentries.congr (by simp only [leaves, List.forall_mem_map, Leaf.valid_address])

theorem Fraction.accepts (f : Fraction) : Accepts f.toWire (f.denominator ≠ 0) := by
  have hcheck : Accepts f.check (f.denominator ≠ 0) := by
    rw [check]
    split
    · next hzero => exact (Accepts.error _).congr (by simp [hzero])
    · next hne => exact (Accepts.pure f).congr (by simp [hne])
  exact hcheck.bind_pure fun f => (⟨f.numerator, f.denominator⟩ : Wire.Fraction)

theorem MessageFee.accepts (network : Network) (fees : List MessageFee) :
    Accepts (fees.mapM toWire) (∀ leaf ∈ leaves fees, leaf.Valid network) := by
  have hfees := Accepts.mapM
    (fun f : MessageFee => (Amount.accepts f.fee).bind_pure
      fun fee => (⟨f.path, some fee⟩ : Wire.MessageFee)) fees
  exact hfees.congr (by simp only [leaves, List.forall_mem_map, Leaf.valid_amount])

theorem Participant.accepts (terms : ContractTerms) :
    Accepts (listToWire network terms.participants)
      (∀ leaf ∈ terms.leaves, leaf.Valid network) := by
  have hparticipants := Accepts.mapM
    (fun p : Participant => (Address.accepts network p.address).bind_pure
      fun signature => (⟨signature, p.weight⟩ : Wire.Participant)) terms.participants
  exact hparticipants.congr
    (by simp only [ContractTerms.leaves, List.forall_mem_map, Leaf.valid_address])

/-! ## Actions -/

theorem Transfer.accepts (t : Transfer) :
    Accepts (t.toWire network) (∀ leaf ∈ t.leaves, leaf.Valid network) := by
  have hsender := Address.accepts network t.sender
  have hrecipient := Address.accepts network t.recipient
  have hamount := Amount.accepts t.amount
  have hmemo := Memo.accepts t.memo
  refine (hsender.bind fun _ => hrecipient.bind fun _ => hamount.bind fun _ =>
    hmemo.bind_pure _).congr ?_
  simp [leaves, Memo.leaves]

theorem AccountConfiguration.accepts (c : AccountConfiguration) :
    Accepts (c.toUpdate network) (Address.Spelled network c.owner) :=
  ((Address.accepts network c.owner).bind_pure _).bind_pure fun patch =>
    (⟨Wire.header, some patch⟩ : Wire.Update Wire.AccountConfiguration)

theorem Measure.accepts (measure : Measure) :
    Accepts (measure.toWire network)
      ((∀ leaf ∈ measure.leaves, leaf.Valid network) ∧ measure.WellFormed ∧ measure.Permitted) := by
  cases measure with
  | textResolution resolution =>
    exact (Accepts.pure _).congr (by simp [leaves, WellFormed, Permitted])
  | releaseEscrow escrowId amount =>
    refine ((Amount.accepts amount).bind_pure _).congr ?_
    simp [leaves, WellFormed, Permitted]
  | send transfer =>
    refine ((Transfer.accepts transfer).bind_pure _).congr ?_
    simp [leaves, WellFormed, Permitted]
  | setValidators updates =>
    refine ((Validator.updates_accepts updates).bind_pure _).congr ?_
    simp [leaves, WellFormed, Permitted]
  | updateElectionRule rule =>
    have hthreshold := Accepts.optionally Fraction.accepts rule.threshold
    have hquorum := Accepts.optionally Fraction.accepts rule.quorum
    refine (hthreshold.bind fun _ => hquorum.bind_pure _).congr ?_
    simp [leaves, WellFormed, Permitted]
  | updateElectorate electorateId electors =>
    refine ((Elector.accepts electors).bind_pure _).congr ?_
    simp [leaves, WellFormed, Permitted]
  | setMessageFee path fee =>
    refine ((Amount.accepts fee).bind_pure _).congr ?_
    simp [leaves, WellFormed, Permitted]
  | executeMigration id =>
    refine Accepts.congr (Accepts.guard fun _ => Accepts.pure _) ?_
    simp [leaves, WellFormed, Permitted]
  | upgradeSchema package toVersion =>
    exact (Accepts.pure _).congr (by simp [leaves, WellFormed, Permitted])
  | configureCash c =>
    have howner := Address.accepts network c.owner
    have hcollector := Address.accepts network c.collectorAddress
    have hfee := Accepts.optionally Amount.accepts c.minimalFee
    refine (howner.bind fun _ => hcollector.bind fun _ => hfee.bind_pure _).congr ?_
    simp [leaves, WellFormed, Permitted]
  | configureTxFee c =>
    have howner := Address.accepts network c.owner
    have hfee := Accepts.optionally Amount.accepts c.baseFee
    refine (howner.bind fun _ => hfee.bind_pure _).congr ?_
    simp [leaves, WellFormed, Permitted]
  | configureUsernames c =>
    refine ((Address.accepts network c.owner).bind_pure _).congr ?_
    simp [leaves, WellFormed, Permitted]
  | configureAccounts c =>
    rw [Measure.toWire_configureAccounts]
    refine ((AccountConfiguration.accepts c).bind_pure _).congr ?_
    simp [leaves, WellFormed, Permitted]
  | configureMessageFees c =>
    have howner := Address.accepts network c.owner
    have hfeeAdmin := Address.accepts network c.feeAdmin
    refine (howner.bind fun _ => hfeeAdmin.bind_pure _).congr ?_
    simp [leaves, WellFormed, Permitted]

namespace Action

theorem member_accepts (member : Action) :
    Accepts (memberToWire network member)
      ((∀ leaf ∈ member.leaves, leaf.Valid network) ∧
        ∃ transfer, member = .enact (.send transfer)) := by
  unfold memberToWire
  split
  · next transfer =>
    refine ((Transfer.accepts transfer).bind_pure _).congr ?_
    simp [leaves, Measure.leaves]
  · next hother =>
    refine (Accepts.error _).congr ?_
    simpa using fun _ => hother

theorem accepts (action : Action) :
    Accepts (action.toWire network)
      ((∀ leaf ∈ action.leaves, leaf.Valid network) ∧ action.WellFormed ∧ action.Permitted) := by
  cases action with
  | enact measure => exact Measure.accepts measure
  | batch members =>
    refine ((Accepts.mapM member_accepts members).bind_pure _).congr ?_
    rw [leaves, leavesList_eq_flatMap, WellFormed, Permitted, and_true, List.forall_mem_flatMap]
    exact forall₂_and

theorem encode_accepts (network : Network) (action : Action) :
    Accepts (action.encode network)
      ((∀ leaf ∈ action.leaves, leaf.Valid network) ∧ action.WellFormed ∧ action.Permitted) :=
  (accepts action).bind_pure _

end Action

/-! ## Operations -/

theorem SwapOffer.accepts (o : SwapOffer) :
    Accepts (o.toWire network)
      (o.hash.length = 32 ∧ ∀ leaf ∈ o.leaves, leaf.Valid network) := by
  have hhash := Check.accepts_exactly "hash" 32 o.hash
  have hsender := Address.accepts network o.sender
  have hrecipient := Address.accepts network o.recipient
  have hamounts := Accepts.mapM Amount.accepts o.amounts
  have hmemo := Memo.accepts o.memo
  refine (hhash.bind fun _ => hsender.bind fun _ => hrecipient.bind fun _ =>
    hamounts.bind fun _ => hmemo.bind_pure _).congr ?_
  simp [leaves, Memo.leaves, or_imp, forall_and]

theorem DomainRegistration.accepts (r : DomainRegistration) :
    Accepts (r.toWire network) (∀ leaf ∈ r.leaves, leaf.Valid network) := by
  have hadmin := Address.accepts network r.admin
  have hbroker := Address.accepts? network r.broker
  have hfees := MessageFee.accepts network r.messageFees
  refine (hadmin.bind fun _ => hbroker.bind fun _ => hfees.bind_pure _).congr ?_
  simp [leaves, or_imp, forall_and]

theorem AccountRegistration.accepts (r : AccountRegistration) :
    Accepts (r.toWire network) (∀ leaf ∈ r.leaves, leaf.Valid network) := by
  have howner := Address.accepts network r.owner
  have hbroker := Address.accepts? network r.broker
  refine (howner.bind fun _ => hbroker.bind_pure _).congr ?_
  simp [leaves]

theorem EscrowCreation.accepts (e : EscrowCreation) :
    Accepts (e.toWire network) (∀ leaf ∈ e.leaves, leaf.Valid network) := by
  have hsender := Address.accepts network e.sender
  have harbiter := Address.accepts network e.arbiter
  have hrecipient := Address.accepts network e.recipient
  have hamounts := Accepts.mapM Amount.accepts e.amounts
  have hmemo := Memo.accepts e.memo
  refine (hsender.bind fun _ => harbiter.bind fun _ => hrecipient.bind fun _ =>
    hamounts.bind fun _ => hmemo.bind_pure _).congr ?_
  simp [leaves, Memo.leaves, or_imp, forall_and]

namespace EscrowParties

theorem count_eq_one_iff {p : EscrowParties} : p.count = 1 ↔ p.NamesOne := by
  obtain ⟨escrowId, sender, arbiter, recipient⟩ := p
  cases sender <;> cases arbiter <;> cases recipient <;> simp [count, NamesOne]

theorem accepts (p : EscrowParties) :
    Accepts (p.toWire network) ((∀ leaf ∈ p.leaves, leaf.Valid network) ∧ p.NamesOne) := by
  have hsender := Address.accepts? network p.sender
  have harbiter := Address.accepts? network p.arbiter
  have hrecipient := Address.accepts? network p.recipient
  unfold toWire
  refine Accepts.congr (Accepts.guard fun _ => hsender.bind fun _ => harbiter.bind fun _ =>
    hrecipient.bind_pure _) ?_
  rw [not_not, count_eq_one_iff, and_comm]
  simp only [leaves, List.forall_mem_append, List.forall_mem_map, Option.mem_toList, Option.mem_def,
    Leaf.valid_address, and_assoc]

end EscrowParties

theorem Proposal.accepts (p : Proposal) :
    Accepts (p.toWire network) ((∀ leaf ∈ p.leaves, leaf.Valid network) ∧
      p.action.WellFormed ∧ p.action.Permitted) := by
  have haction := Action.encode_accepts network p.action
  have hauthor := Address.accepts network p.author
  refine (haction.bind fun _ => hauthor.bind_pure _).congr ?_
  simp only [leaves, List.forall_mem_append, List.forall_mem_singleton, Leaf.valid_address]
  tauto

theorem Vote.accepts (v : Vote) :
    Accepts (v.toWire network strict)
      ((∀ leaf ∈ v.leaves, leaf.Valid network) ∧ (strict = true → v.voter ≠ none)) := by
  unfold toWire
  refine Accepts.congr (Accepts.guard fun _ => (Address.accepts? network v.voter).bind_pure _) ?_
  simp only [leaves, List.forall_mem_map, Option.mem_toList, Option.mem_def, Leaf.valid_address,
    Bool.and_eq_true, Option.isNone_iff_eq_none, not_and, ne_eq]
  exact and_comm

theorem checkUsername_accepts (username : String) :
    Accepts (checkUsername username) (∃ name : String, username = name ++ "*iov") := by
  have hsuffix : usernameNamespace.toList.isSuffixOf username.toList = true ↔
      ∃ name : String, username = name ++ "*iov" := by
    rw [List.isSuffixOf_iff_suffix]
    constructor
    · rintro ⟨name, hname⟩
      refine ⟨String.ofList name, String.toList_inj.mp ?_⟩
      rw [String.toList_append, String.toList_ofList, ← hname, usernameNamespace]
    · rintro ⟨name, rfl⟩
      exact ⟨name.toList, String.toList_append.symm⟩
  unfold checkUsername
  split
  · next h => exact (Accepts.pure _).congr (iff_of_true trivial (hsuffix.mp h))
  · next h => exact (Accepts.error _).congr (iff_of_false id (h ∘ hsuffix.mpr))

theorem Operation.accepts (network : Network) (strict : Bool) (operation : Operation) :
    Accepts (operation.toWire network strict)
      ((∀ leaf ∈ operation.leaves, leaf.Valid network) ∧ operation.WellFormed ∧
        operation.Permitted strict) := by
  cases operation with
  | send transfer =>
    refine ((Transfer.accepts transfer).bind_pure _).congr ?_
    simp [leaves, WellFormed, Permitted]
  | swapOffer offer =>
    refine ((SwapOffer.accepts offer).bind_pure _).congr ?_
    simp [leaves, WellFormed, Permitted, and_comm]
  | swapClaim swapId preimage =>
    refine ((Check.accepts_exactly "swapId" 8 swapId).bind fun _ =>
      (Check.accepts_exactly "preimage" 32 preimage).bind_pure _).congr ?_
    simp [leaves, WellFormed, Permitted]
  | swapAbort swapId =>
    refine ((Check.accepts_exactly "swapId" 8 swapId).bind_pure _).congr ?_
    simp [leaves, WellFormed, Permitted]
  | registerUsername username targets =>
    refine ((checkUsername_accepts username).bind_pure _).congr ?_
    simp [leaves, WellFormed, Permitted]
  | transferUsername username newOwner =>
    refine ((Address.accepts network newOwner).bind_pure _).congr ?_
    simp [leaves, WellFormed, Permitted]
  | updateAccountConfiguration configuration =>
    refine ((AccountConfiguration.accepts configuration).bind_pure _).congr ?_
    simp [leaves, WellFormed, Permitted]
  | registerDomain registration =>
    refine ((DomainRegistration.accepts registration).bind_pure _).congr ?_
    simp [leaves, WellFormed, Permitted]
  | transferDomain domain newAdmin =>
    refine ((Address.accepts network newAdmin).bind_pure _).congr ?_
    simp [leaves, WellFormed, Permitted]
  | registerAccount registration =>
    refine ((AccountRegistration.accepts registration).bind_pure _).congr ?_
    simp [leaves, WellFormed, Permitted]
  | transferAccount domain name newOwner =>
    refine ((Address.accepts network newOwner).bind_pure _).congr ?_
    simp [leaves, WellFormed, Permitted]
  | addAccountCertificate domain name certificate =>
    refine ((Check.accepts_present "certificate" certificate).bind_pure _).congr ?_
    simp [leaves, WellFormed, Permitted]
  | replaceAccountMessageFees domain fees =>
    refine ((MessageFee.accepts network fees).bind_pure _).congr ?_
    simp [leaves, WellFormed, Permitted]
  | deleteAccountCertificate domain name certificateHash =>
    refine ((Check.accepts_present "certificateHash" certificateHash).bind_pure _).congr ?_
    simp [leaves, WellFormed, Permitted]
  | createContract terms =>
    refine ((Participant.accepts terms).bind_pure _).congr ?_
    simp [leaves, WellFormed, Permitted]
  | updateContract contractId terms =>
    refine ((Participant.accepts terms).bind_pure _).congr ?_
    simp [leaves, WellFormed, Permitted]
  | createEscrow escrow =>
    refine ((EscrowCreation.accepts escrow).bind_pure _).congr ?_
    simp [leaves, WellFormed, Permitted]
  | releaseEscrow escrowId amounts =>
    refine ((Accepts.mapM Amount.accepts amounts).bind_pure _).congr ?_
    simp [leaves, WellFormed, Permitted]
  | updateEscrowParties parties =>
    refine ((EscrowParties.accepts parties).bind_pure _).congr ?_
    simp [leaves, WellFormed, Permitted]
  | createProposal proposal =>
    refine ((Proposal.accepts proposal).bind_pure _).congr ?_
    simp [leaves, WellFormed, Permitted]
  | vote v =>
    refine ((Vote.accepts v).bind_pure _).congr ?_
    simp [leaves, WellFormed, Permitted]
  -- the rest is written whatever it holds
  | updateUsernameTargets _ _ =>
    exact (Accepts.pure _).congr (by simp [leaves, WellFormed, Permitted])
  | renewDomain _ => exact (Accepts.pure _).congr (by simp [leaves, WellFormed, Permitted])
  | deleteDomain _ => exact (Accepts.pure _).congr (by simp [leaves, WellFormed, Permitted])
  | replaceAccountTargets _ _ _ =>
    exact (Accepts.pure _).congr (by simp [leaves, WellFormed, Permitted])
  | deleteAccount _ _ => exact (Accepts.pure _).congr (by simp [leaves, WellFormed, Permitted])
  | deleteAllAccounts _ => exact (Accepts.pure _).congr (by simp [leaves, WellFormed, Permitted])
  | renewAccount _ _ => exact (Accepts.pure _).congr (by simp [leaves, WellFormed, Permitted])
  | returnEscrow _ => exact (Accepts.pure _).congr (by simp [leaves, WellFormed, Permitted])

theorem Vote.toWire_of_strict {v : Vote} {m : Wire.Vote} (h : v.toWire network true = .ok m) :
    v.toWire network strict = .ok m := by
  obtain ⟨proposalId, selection, voter⟩ := v
  cases voter with
  | none => cases h
  | some text =>
    have hguard : (strict && (some text).isNone) = false := Bool.and_false strict
    rw [toWire, hguard]
    exact h

/-- Only votes are written under a rule that a lenient writer does not have. -/
theorem Operation.toWire_of_strict {operation : Operation} {body : Wire.Body}
    (h : operation.toWire network true = .ok body) :
    operation.toWire network strict = .ok body := by
  cases operation with
  | vote v =>
    obtain ⟨m, hm, hbody⟩ := bind_eq_ok.mp h
    exact bind_eq_ok.mpr ⟨m, Vote.toWire_of_strict hm, hbody⟩
  | _ => exact h

/-! ## Transactions -/

theorem Fee.accepts (network : Network) (fee : Fee) :
    Accepts (fee.toWire network) (∀ leaf ∈ fee.leaves, leaf.Valid network) := by
  have hpayer := Address.accepts? network fee.payer
  have htokens := Accepts.optionally Amount.accepts fee.tokens
  refine (hpayer.bind fun _ => htokens.bind_pure _).congr ?_
  simp only [leaves, List.forall_mem_append, List.forall_mem_map, Option.mem_toList, Option.mem_def,
    Leaf.valid_address, Leaf.valid_amount]

theorem Signature.accepts (s : Signature) : Accepts s.toWire s.Usable := by
  constructor
  · rintro ⟨m, hm⟩
    obtain ⟨halgorithm, hlength, -⟩ := toWire_eq_ok.mp hm
    exact ⟨halgorithm, hlength⟩
  · rintro ⟨halgorithm, hlength⟩
    exact ⟨_, toWire_eq_ok.mpr ⟨halgorithm, hlength, rfl⟩⟩

theorem Transaction.accepts (signatures : List Wire.Signature) (tx : Transaction) :
    Accepts (tx.toWire strict signatures)
      ((∀ leaf ∈ tx.leaves, leaf.Valid tx.network) ∧ tx.operation.WellFormed ∧
        tx.operation.Permitted strict) := by
  have hfee := Accepts.optionally (Fee.accepts tx.network) tx.fee
  have hoperation := Operation.accepts tx.network strict tx.operation
  refine (hfee.bind fun _ => hoperation.bind_pure _).congr ?_
  simp only [leaves, List.forall_mem_append, List.forall_mem_flatMap, Option.mem_toList,
    Option.mem_def, and_assoc]

namespace SignedTransaction

/-- All leaves are valid if each kind of them is. -/
theorem acceptable_iff {s : SignedTransaction} :
    s.Acceptable strict ↔ (∀ signature ∈ s.signatures, signature.Usable) ∧
      (∀ leaf ∈ s.transaction.leaves, leaf.Valid s.transaction.network) ∧
        s.transaction.operation.WellFormed ∧ s.transaction.operation.Permitted strict := by
  constructor
  · rintro ⟨hsignatures, haddresses, hamounts, hmemos, hform, hrules⟩
    refine ⟨hsignatures, ?_, hform, hrules⟩
    intro leaf hleaf
    cases leaf with
    | address text => exact haddresses text hleaf
    | amount a => exact hamounts a hleaf
    | memo text => exact hmemos text hleaf
  · rintro ⟨hsignatures, hleaves, hform, hrules⟩
    exact ⟨hsignatures, fun _ => hleaves _, fun _ => hleaves _, fun _ => hleaves _, hform, hrules⟩

/-- Whether the writer is strict decides on whether it writes, never on what. -/
theorem encode_of_strict {s : SignedTransaction} {bs : Bytes} (h : s.encode true = .ok bs) :
    s.encode strict = .ok bs := by
  obtain ⟨m, hm, hbs⟩ := bind_eq_ok.mp h
  obtain ⟨signatures, hsignatures, htx⟩ := bind_eq_ok.mp hm
  obtain ⟨fees, hfees, hbody⟩ := bind_eq_ok.mp htx
  obtain ⟨body, hoperation, henvelope⟩ := bind_eq_ok.mp hbody
  apply bind_eq_ok.mpr ⟨m, ?_, hbs⟩
  apply bind_eq_ok.mpr ⟨signatures, hsignatures, ?_⟩
  apply bind_eq_ok.mpr ⟨fees, hfees, ?_⟩
  exact bind_eq_ok.mpr ⟨body, Operation.toWire_of_strict hoperation, henvelope⟩

theorem accepts (s : SignedTransaction) : Accepts (s.encode strict) (s.Acceptable strict) := by
  refine (((Accepts.mapM Signature.accepts s.signatures).bind fun ms =>
    Transaction.accepts ms s.transaction).bind_pure _).congr ?_
  exact acceptable_iff.symm

/-- A signed transaction can be written if and only if it is acceptable. -/
theorem encode_eq_ok_iff_acceptable (strict : Bool) (s : SignedTransaction) :
    (∃ bs, s.encode strict = .ok bs) ↔ s.Acceptable strict :=
  accepts s

end SignedTransaction

end NameService
