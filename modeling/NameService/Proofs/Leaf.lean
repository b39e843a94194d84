import NameService.Proofs.NormalForm

/-
  The leaves of a transaction: every address, amount and memo in it.

  These are the parts that a transaction holds as texts and the wire holds in
  another form, wherever in a transaction they stand; what the writer demands of
  them does not depend on the place. Targets are addresses on other chains and no
  leaves. What is proved:
    1. `Transaction.normal_eq_self` — a transaction whose leaves are in normal form
       is in normal form.
-/

namespace NameService

/-- A part of a transaction that is spelled in one way and written in another. -/
inductive Leaf where
  /-- An address on the chain of the transaction. -/
  | address (text : String)
  | amount (amount : Amount)
  | memo (text : String)
  deriving DecidableEq, Repr

/-- A leaf that is spelled in the one way in which it is read. -/
def Leaf.Canonical (network : Network) : Leaf → Prop
  | address text => Address.canonical network text = text
  | amount a => a.normal = a
  | memo text => text ≠ ""

variable {network : Network}

/-! ## Actions -/

/-- The leaves of memos, if there are any. -/
def Memo.leaves (memo : Option String) : List Leaf :=
  memo.toList.map .memo

def Transfer.leaves (t : Transfer) : List Leaf :=
  .address t.sender :: .address t.recipient :: .amount t.amount :: Memo.leaves t.memo

/-- The addresses of electors. -/
def Elector.leaves (electors : SortedMap UInt32) : List Leaf :=
  electors.entries.map fun e => .address e.1

def Measure.leaves : Measure → List Leaf
  | .releaseEscrow _ amount => [.amount amount]
  | .send transfer => transfer.leaves
  | .updateElectorate _ electors => Elector.leaves electors
  | .setMessageFee _ fee => [.amount fee]
  | .configureCash c =>
    .address c.owner :: .address c.collectorAddress :: c.minimalFee.toList.map .amount
  | .configureTxFee c => .address c.owner :: c.baseFee.toList.map .amount
  | .configureUsernames c => [.address c.owner]
  | .configureAccounts c => [.address c.owner]
  | .configureMessageFees c => [.address c.owner, .address c.feeAdmin]
  | _ => []

mutual

def Action.leaves : Action → List Leaf
  | .enact measure => measure.leaves
  | .batch members => Action.leavesList members

def Action.leavesList : List Action → List Leaf
  | [] => []
  | member :: members => member.leaves ++ Action.leavesList members

end

theorem Action.leavesList_eq_flatMap (members : List Action) :
    Action.leavesList members = members.flatMap Action.leaves := by
  induction members with
  | nil => rfl
  | cons member members ih => rw [Action.leavesList, ih, List.flatMap_cons]

/-! ## Operations -/

def SwapOffer.leaves (o : SwapOffer) : List Leaf :=
  .address o.sender :: .address o.recipient :: o.amounts.map .amount ++ Memo.leaves o.memo

/-- The amounts of fees. -/
def MessageFee.leaves (fees : List MessageFee) : List Leaf :=
  fees.map fun f => .amount f.fee

def DomainRegistration.leaves (r : DomainRegistration) : List Leaf :=
  .address r.admin :: r.broker.toList.map .address ++ MessageFee.leaves r.messageFees

def AccountRegistration.leaves (r : AccountRegistration) : List Leaf :=
  .address r.owner :: r.broker.toList.map .address

def ContractTerms.leaves (t : ContractTerms) : List Leaf :=
  t.participants.map fun p => .address p.address

def EscrowCreation.leaves (e : EscrowCreation) : List Leaf :=
  .address e.sender :: .address e.arbiter :: .address e.recipient :: e.amounts.map .amount ++
    Memo.leaves e.memo

def EscrowParties.leaves (p : EscrowParties) : List Leaf :=
  p.sender.toList.map .address ++ p.arbiter.toList.map .address ++ p.recipient.toList.map .address

def Proposal.leaves (p : Proposal) : List Leaf :=
  p.action.leaves ++ [.address p.author]

def Vote.leaves (v : Vote) : List Leaf :=
  v.voter.toList.map .address

def Operation.leaves : Operation → List Leaf
  | .send transfer => transfer.leaves
  | .swapOffer offer => offer.leaves
  | .transferUsername _ newOwner => [.address newOwner]
  | .updateAccountConfiguration c => [.address c.owner]
  | .registerDomain registration => registration.leaves
  | .transferDomain _ newAdmin => [.address newAdmin]
  | .registerAccount registration => registration.leaves
  | .transferAccount _ _ newOwner => [.address newOwner]
  | .replaceAccountMessageFees _ fees => MessageFee.leaves fees
  | .createContract terms => terms.leaves
  | .updateContract _ terms => terms.leaves
  | .createEscrow escrow => escrow.leaves
  | .releaseEscrow _ amounts => amounts.map .amount
  | .updateEscrowParties parties => parties.leaves
  | .createProposal proposal => proposal.leaves
  | .vote v => v.leaves
  | _ => []

/-! ## Transactions -/

def Fee.leaves (fee : Fee) : List Leaf :=
  fee.payer.toList.map .address ++ fee.tokens.toList.map .amount

/-- The leaves of a transaction, those of its fee first. -/
def Transaction.leaves (tx : Transaction) : List Leaf :=
  tx.fee.toList.flatMap Fee.leaves ++ tx.operation.leaves

/-! ## Normal form -/

namespace Leaf

theorem option_map_eq_self {α : Type} {f : α → α} {o : Option α} (h : ∀ a ∈ o, f a = a) :
    o.map f = o :=
  (Option.map_congr h).trans (congrFun Option.map_id o)

theorem list_map_eq_self {α : Type} {f : α → α} {as : List α} (h : ∀ a ∈ as, f a = a) :
    as.map f = as :=
  (List.map_congr_left h).trans (List.map_id as)

end Leaf

open Leaf

theorem Memo.normal_eq_self {memo : Option String}
    (h : ∀ leaf ∈ Memo.leaves memo, leaf.Canonical network) : Memo.normal memo = memo := by
  cases memo with
  | none => rfl
  | some text =>
    have hne : text ≠ "" := h (.memo text) (by simp [leaves])
    simp [normal, Option.filter, hne]

theorem Transfer.normal_eq_self {t : Transfer}
    (h : ∀ leaf ∈ t.leaves, leaf.Canonical network) : t.normal network = t := by
  simp only [leaves, List.forall_mem_cons] at h
  obtain ⟨hsender, hrecipient, hamount, hmemo⟩ := h
  simp only [Canonical] at hsender hrecipient hamount
  rw [normal, hsender, hrecipient, hamount, Memo.normal_eq_self hmemo]

theorem Elector.respelled_eq_entries {electors : SortedMap UInt32}
    (h : ∀ leaf ∈ Elector.leaves electors, leaf.Canonical network) :
    respelled network electors = electors.entries := by
  refine list_map_eq_self fun e he => ?_
  have hkey : Address.canonical network e.1 = e.1 := h (.address e.1) (List.mem_map_of_mem he)
  rw [respell, hkey]

theorem Elector.normal_eq_self {electors : SortedMap UInt32}
    (h : ∀ leaf ∈ Elector.leaves electors, leaf.Canonical network) :
    Elector.normal network electors = electors := by
  rw [normal, respelled_eq_entries h, SortedMap.ofList_entries]

theorem MessageFee.normal_eq_self {fees : List MessageFee}
    (h : ∀ leaf ∈ MessageFee.leaves fees, leaf.Canonical network) :
    fees.map MessageFee.normal = fees := by
  refine list_map_eq_self fun f hf => ?_
  have hfee : f.fee.normal = f.fee := h (.amount f.fee) (List.mem_map_of_mem hf)
  rw [MessageFee.normal, hfee]

theorem Measure.normal_eq_self {measure : Measure}
    (h : ∀ leaf ∈ measure.leaves, leaf.Canonical network) : measure.normal network = measure := by
  cases measure with
  | releaseEscrow escrowId amount =>
    have hamount : amount.normal = amount := h _ (List.mem_singleton_self _)
    rw [normal, hamount]
  | send transfer => rw [normal, Transfer.normal_eq_self h]
  | updateElectorate electorateId electors => rw [normal, Elector.normal_eq_self h]
  | setMessageFee path fee =>
    have hfee : fee.normal = fee := h _ (List.mem_singleton_self _)
    rw [normal, hfee]
  | configureCash c =>
    simp only [leaves, List.forall_mem_cons, List.forall_mem_map, Option.mem_toList] at h
    obtain ⟨howner, hcollector, hfee⟩ := h
    simp only [Canonical] at howner hcollector hfee
    rw [normal, howner, hcollector, option_map_eq_self hfee]
  | configureTxFee c =>
    simp only [leaves, List.forall_mem_cons, List.forall_mem_map, Option.mem_toList] at h
    obtain ⟨howner, hfee⟩ := h
    simp only [Canonical] at howner hfee
    rw [normal, howner, option_map_eq_self hfee]
  | configureUsernames c =>
    have howner : Address.canonical network c.owner = c.owner := h _ (List.mem_singleton_self _)
    rw [normal, howner]
  | configureAccounts c =>
    have howner : Address.canonical network c.owner = c.owner := h _ (List.mem_singleton_self _)
    rw [normal, AccountConfiguration.normal, howner]
  | configureMessageFees c =>
    simp only [leaves, List.forall_mem_cons] at h
    obtain ⟨howner, hfeeAdmin, -⟩ := h
    simp only [Canonical] at howner hfeeAdmin
    rw [normal, howner, hfeeAdmin]
  -- the rest has no leaves
  | textResolution _ => rfl
  | setValidators _ => rfl
  | updateElectionRule _ => rfl
  | executeMigration _ => rfl
  | upgradeSchema _ _ => rfl

mutual

theorem Action.normal_eq_self :
    (action : Action) → (∀ leaf ∈ action.leaves, leaf.Canonical network) →
      action.normal network = action
  | .enact measure, h => by rw [Action.normal, Measure.normal_eq_self h]
  | .batch members, h => by rw [Action.normal, Action.normalList_eq_self members h]

theorem Action.normalList_eq_self :
    (members : List Action) → (∀ leaf ∈ Action.leavesList members, leaf.Canonical network) →
      Action.normalList network members = members
  | [], _ => rfl
  | member :: members, h => by
    obtain ⟨hmember, hmembers⟩ := List.forall_mem_append.mp h
    rw [Action.normalList, Action.normal_eq_self member hmember,
      Action.normalList_eq_self members hmembers]

end

theorem ContractTerms.normal_eq_self {terms : ContractTerms}
    (h : ∀ leaf ∈ terms.leaves, leaf.Canonical network) : terms.normal network = terms := by
  have hparticipants : ∀ p ∈ terms.participants, p.normal network = p := by
    intro p hp
    have haddress : Address.canonical network p.address = p.address :=
      h (.address p.address) (List.mem_map_of_mem hp)
    rw [Participant.normal, haddress]
  rw [normal, list_map_eq_self hparticipants]

theorem Operation.normal_eq_self {operation : Operation}
    (h : ∀ leaf ∈ operation.leaves, leaf.Canonical network) :
    operation.normal network = operation := by
  cases operation with
  | send transfer => rw [normal, Transfer.normal_eq_self h]
  | swapOffer o =>
    simp only [leaves, SwapOffer.leaves, List.cons_append, List.forall_mem_cons,
      List.forall_mem_append, List.forall_mem_map] at h
    obtain ⟨hsender, hrecipient, hamounts, hmemo⟩ := h
    simp only [Canonical] at hsender hrecipient hamounts
    rw [normal, SwapOffer.normal, hsender, hrecipient, list_map_eq_self hamounts,
      Memo.normal_eq_self hmemo]
  | transferUsername username newOwner =>
    have howner : Address.canonical network newOwner = newOwner := h _ (List.mem_singleton_self _)
    rw [normal, howner]
  | updateAccountConfiguration c =>
    have howner : Address.canonical network c.owner = c.owner := h _ (List.mem_singleton_self _)
    rw [normal, AccountConfiguration.normal, howner]
  | registerDomain r =>
    simp only [leaves, DomainRegistration.leaves, List.cons_append, List.forall_mem_cons,
      List.forall_mem_append, List.forall_mem_map, Option.mem_toList] at h
    obtain ⟨hadmin, hbroker, hfees⟩ := h
    simp only [Canonical] at hadmin hbroker
    rw [normal, DomainRegistration.normal, hadmin, option_map_eq_self hbroker,
      MessageFee.normal_eq_self hfees]
  | transferDomain domain newAdmin =>
    have hadmin : Address.canonical network newAdmin = newAdmin := h _ (List.mem_singleton_self _)
    rw [normal, hadmin]
  | registerAccount r =>
    simp only [leaves, AccountRegistration.leaves, List.forall_mem_cons, List.forall_mem_map,
      Option.mem_toList] at h
    obtain ⟨howner, hbroker⟩ := h
    simp only [Canonical] at howner hbroker
    rw [normal, AccountRegistration.normal, howner, option_map_eq_self hbroker]
  | transferAccount domain name newOwner =>
    have howner : Address.canonical network newOwner = newOwner := h _ (List.mem_singleton_self _)
    rw [normal, howner]
  | replaceAccountMessageFees domain fees => rw [normal, MessageFee.normal_eq_self h]
  | createContract terms => rw [normal, ContractTerms.normal_eq_self h]
  | updateContract contractId terms => rw [normal, ContractTerms.normal_eq_self h]
  | createEscrow e =>
    simp only [leaves, EscrowCreation.leaves, List.cons_append, List.forall_mem_cons,
      List.forall_mem_append, List.forall_mem_map] at h
    obtain ⟨hsender, harbiter, hrecipient, hamounts, hmemo⟩ := h
    simp only [Canonical] at hsender harbiter hrecipient hamounts
    rw [normal, EscrowCreation.normal, hsender, harbiter, hrecipient, list_map_eq_self hamounts,
      Memo.normal_eq_self hmemo]
  | releaseEscrow escrowId amounts =>
    have hamounts : amounts.map Amount.normal = amounts :=
      list_map_eq_self (List.forall_mem_map.mp h)
    rw [normal, hamounts]
  | updateEscrowParties p =>
    simp only [leaves, EscrowParties.leaves, List.forall_mem_append, List.forall_mem_map,
      Option.mem_toList] at h
    obtain ⟨⟨hsender, harbiter⟩, hrecipient⟩ := h
    simp only [Canonical] at hsender harbiter hrecipient
    rw [normal, EscrowParties.normal, option_map_eq_self hsender, option_map_eq_self harbiter,
      option_map_eq_self hrecipient]
  | createProposal p =>
    obtain ⟨haction, hauthor⟩ := List.forall_mem_append.mp h
    have hauthor : Address.canonical network p.author = p.author :=
      hauthor _ (List.mem_singleton_self _)
    rw [normal, Proposal.normal, Action.normal_eq_self p.action haction, hauthor]
  | vote v =>
    simp only [leaves, Vote.leaves, List.forall_mem_map, Option.mem_toList] at h
    simp only [Canonical] at h
    rw [normal, Vote.normal, option_map_eq_self h]
  -- the rest has no leaves
  | swapClaim _ _ => rfl
  | swapAbort _ => rfl
  | registerUsername _ _ => rfl
  | updateUsernameTargets _ _ => rfl
  | renewDomain _ => rfl
  | deleteDomain _ => rfl
  | replaceAccountTargets _ _ _ => rfl
  | deleteAccount _ _ => rfl
  | deleteAllAccounts _ => rfl
  | renewAccount _ _ => rfl
  | addAccountCertificate _ _ _ => rfl
  | deleteAccountCertificate _ _ _ => rfl
  | returnEscrow _ => rfl

theorem Fee.normal_eq_self {fee : Fee} (h : ∀ leaf ∈ fee.leaves, leaf.Canonical network) :
    fee.normal network = fee := by
  simp only [leaves, List.forall_mem_append, List.forall_mem_map, Option.mem_toList] at h
  obtain ⟨hpayer, htokens⟩ := h
  simp only [Canonical] at hpayer htokens
  rw [normal, option_map_eq_self hpayer, option_map_eq_self htokens]

/-- A transaction whose leaves are in normal form is in normal form. -/
theorem Transaction.normal_eq_self {tx : Transaction}
    (h : ∀ leaf ∈ tx.leaves, leaf.Canonical tx.network) : tx.normal = tx := by
  obtain ⟨hfee, hoperation⟩ := List.forall_mem_append.mp h
  have hfee : tx.fee.map (Fee.normal tx.network) = tx.fee := by
    refine option_map_eq_self fun fee hmem => Fee.normal_eq_self fun leaf hleaf => ?_
    exact hfee leaf (List.mem_flatMap.mpr ⟨fee, Option.mem_toList.mpr hmem, hleaf⟩)
  rw [normal, hfee, Operation.normal_eq_self hoperation]

end NameService
