import Mathlib.Data.List.Sort
import NameService.Proofs.Numeral
import NameService.Proofs.Reading
import NameService.Proofs.SortedMap

/-
  Transactions with hashes in the place of addresses.

  An address is a hash in the spelling of a network. Where only the hash matters,
  `X.hashed` puts it, in hexadecimal digits, in the place of every address of the chain,
  the keys of electors included; `SignedTransaction.hashed` leaves out the chain id too.
  Targets are addresses on other chains and stay as they are. What is proved:
    1. `Address.Reads.hashText` — the hash of an address does not tell its network.
    2. `SortedMap.mapKeys_ofList` — new keys for the entries of a map are new keys for
       the list that it is made of, as long as different keys stay different.
-/

namespace NameService

/-! ## Addresses -/

/-- The hash of an address of any network, in digits; any other text stays as it is. -/
def Address.hashText (address : String) : String :=
  match decode address with
  | .ok decoded => Hex.encode decoded.data
  | .error _ => address

theorem Address.Reads.hashText {network : Network} {hash : Bytes} {text : String}
    (h : Reads network hash text) : hashText text = Hex.encode hash := by
  have hdecode : decode text = .ok ⟨network.hrp, hash⟩ := (decodeFor_eq_ok.mp h.decodeFor).1
  rw [Address.hashText, hdecode]

/-! ## Maps -/

namespace SortedMap

variable {α : Type}

/-- The map with other keys; where two keys become one, the later entry counts. -/
def mapKeys (f : String → String) (m : SortedMap α) : SortedMap α :=
  ofList (m.entries.map fun e => (f e.1, e.2))

/-- Maps of the same entries are equal. -/
theorem ext_mem {m n : SortedMap α} (h : ∀ e, e ∈ m.entries ↔ e ∈ n.entries) : m = n := by
  have : Std.Antisymm fun d e : String × α => d.1 < e.1 :=
    ⟨fun _ _ hlt hgt => absurd (String.lt_trans hlt hgt) (String.lt_irrefl _)⟩
  have : Std.Irrefl fun d e : String × α => d.1 < e.1 := ⟨fun _ => String.lt_irrefl _⟩
  exact ext_entries (m.sorted.eq_of_mem_iff n.sorted h)

section

variable {f : String → String} {entries : List (String × α)}

/-- If different keys stay different, the last entry of a key stays the last one. -/
theorem mem_ofList_map (hf : ∀ d ∈ entries, ∀ e ∈ entries, f d.1 = f e.1 → d.1 = e.1)
    {e : String × α} :
    e ∈ (ofList (entries.map fun d => (f d.1, d.2))).entries ↔
      ∃ d ∈ (ofList entries).entries, (f d.1, d.2) = e := by
  constructor
  · intro he
    obtain ⟨before, after, hsplit, hafter⟩ := mem_ofList.mp he
    obtain ⟨before', tail, rfl, -, htail⟩ := List.map_eq_append_iff.mp hsplit
    obtain ⟨d, after', rfl, rfl, rfl⟩ := List.map_eq_cons_iff.mp htail
    refine ⟨d, mem_ofList.mpr ⟨before', after', rfl, ?_⟩, rfl⟩
    intro d' hd' hkey
    exact hafter _ (List.mem_map_of_mem hd') (congrArg f hkey)
  · rintro ⟨d, hd, rfl⟩
    obtain ⟨before, after, rfl, hafter⟩ := mem_ofList.mp hd
    refine mem_ofList.mpr ⟨_, _, List.map_append, ?_⟩
    intro e he hkey
    obtain ⟨d', hd', rfl⟩ := List.mem_map.mp he
    exact hafter d' hd' (hf d' (by simp [hd']) d (by simp) hkey)

theorem mapKeys_ofList (hf : ∀ d ∈ entries, ∀ e ∈ entries, f d.1 = f e.1 → d.1 = e.1) :
    (ofList entries).mapKeys f = ofList (entries.map fun e => (f e.1, e.2)) := by
  apply ext_mem
  intro e
  rw [mapKeys, mem_ofList_map hf, mem_ofList_map, ofList_entries]
  exact fun c hc d hd => hf c (mem_of_mem_ofList hc) d (mem_of_mem_ofList hd)

end

end SortedMap

/-! ## Actions -/

def Transfer.hashed (t : Transfer) : Transfer :=
  { t with
    sender := Address.hashText t.sender
    recipient := Address.hashText t.recipient }

def AccountConfiguration.hashed (c : AccountConfiguration) : AccountConfiguration :=
  { c with owner := Address.hashText c.owner }

/-- A map of electors with their hashes as keys. -/
def Elector.hashed (electors : SortedMap UInt32) : SortedMap UInt32 :=
  electors.mapKeys Address.hashText

def Measure.hashed : Measure → Measure
  | .send transfer => .send transfer.hashed
  | .updateElectorate electorateId electors =>
    .updateElectorate electorateId (Elector.hashed electors)
  | .configureCash c => .configureCash
      { c with
        owner := Address.hashText c.owner
        collectorAddress := Address.hashText c.collectorAddress }
  | .configureTxFee c => .configureTxFee { c with owner := Address.hashText c.owner }
  | .configureUsernames c => .configureUsernames { c with owner := Address.hashText c.owner }
  | .configureAccounts c => .configureAccounts c.hashed
  | .configureMessageFees c => .configureMessageFees {
      owner := Address.hashText c.owner
      feeAdmin := Address.hashText c.feeAdmin }
  | unchanged => unchanged

mutual

def Action.hashed : Action → Action
  | .enact measure => .enact measure.hashed
  | .batch members => .batch (Action.hashedList members)

def Action.hashedList : List Action → List Action
  | [] => []
  | member :: members => member.hashed :: Action.hashedList members

end

theorem Action.hashedList_eq_map (members : List Action) :
    Action.hashedList members = members.map Action.hashed := by
  induction members with
  | nil => rfl
  | cons member members ih => rw [Action.hashedList, ih, List.map_cons]

/-! ## Operations -/

def SwapOffer.hashed (o : SwapOffer) : SwapOffer :=
  { o with
    sender := Address.hashText o.sender
    recipient := Address.hashText o.recipient }

def DomainRegistration.hashed (r : DomainRegistration) : DomainRegistration :=
  { r with
    admin := Address.hashText r.admin
    broker := r.broker.map Address.hashText }

def AccountRegistration.hashed (r : AccountRegistration) : AccountRegistration :=
  { r with
    owner := Address.hashText r.owner
    broker := r.broker.map Address.hashText }

def Participant.hashed (p : Participant) : Participant :=
  { p with address := Address.hashText p.address }

def ContractTerms.hashed (t : ContractTerms) : ContractTerms :=
  { t with participants := t.participants.map Participant.hashed }

def EscrowCreation.hashed (e : EscrowCreation) : EscrowCreation :=
  { e with
    sender := Address.hashText e.sender
    arbiter := Address.hashText e.arbiter
    recipient := Address.hashText e.recipient }

def EscrowParties.hashed (p : EscrowParties) : EscrowParties :=
  { p with
    sender := p.sender.map Address.hashText
    arbiter := p.arbiter.map Address.hashText
    recipient := p.recipient.map Address.hashText }

def Proposal.hashed (p : Proposal) : Proposal :=
  { p with
    action := p.action.hashed
    author := Address.hashText p.author }

def Vote.hashed (v : Vote) : Vote :=
  { v with voter := v.voter.map Address.hashText }

def Operation.hashed : Operation → Operation
  | .send transfer => .send transfer.hashed
  | .swapOffer offer => .swapOffer offer.hashed
  | .transferUsername username newOwner =>
    .transferUsername username (Address.hashText newOwner)
  | .updateAccountConfiguration c => .updateAccountConfiguration c.hashed
  | .registerDomain registration => .registerDomain registration.hashed
  | .transferDomain domain newAdmin => .transferDomain domain (Address.hashText newAdmin)
  | .registerAccount registration => .registerAccount registration.hashed
  | .transferAccount domain name newOwner =>
    .transferAccount domain name (Address.hashText newOwner)
  | .createContract terms => .createContract terms.hashed
  | .updateContract contractId terms => .updateContract contractId terms.hashed
  | .createEscrow escrow => .createEscrow escrow.hashed
  | .updateEscrowParties parties => .updateEscrowParties parties.hashed
  | .createProposal proposal => .createProposal proposal.hashed
  | .vote v => .vote v.hashed
  | unchanged => unchanged

/-! ## Transactions -/

def Fee.hashed (fee : Fee) : Fee :=
  { fee with payer := fee.payer.map Address.hashText }

def Transaction.hashed (tx : Transaction) : Transaction :=
  { tx with
    chainId := ""
    fee := tx.fee.map Fee.hashed
    operation := tx.operation.hashed }

/-- A signed transaction without its chain id, and with hashes in the place of
addresses. -/
def SignedTransaction.hashed (s : SignedTransaction) : SignedTransaction :=
  { s with transaction := s.transaction.hashed }

end NameService
