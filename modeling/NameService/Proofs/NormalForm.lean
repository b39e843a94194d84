import NameService.Proofs.Numeral
import NameService.Proofs.SortedMap
import NameService.Transaction.Envelope

/-
  The normal form of a transaction: one spelling for all that the wire does not
  tell apart.

  The wire keeps of an address its hash, of a quantity its number, and of a
  memo its text. The normal form spells an address in the way it is written for
  the network, a quantity without leading zeros, and no memo for the empty one.
  A map of electors is keyed by addresses and so has its keys respelled; where
  several keys spell one address, the last one in the order of the map counts
  (`Elector.mem_normal`). Everything else stays as it is: texts, ids, byte
  strings, and targets, which are addresses on other chains.
-/

namespace NameService

variable (network : Network)

/-! ## Fields -/

/-- An address of the network as it is written for the network; any other text
stays as it is. -/
def Address.canonical (address : String) : String :=
  match Address.decodeFor network address >>= Address.encode network with
  | .ok spelling => spelling
  | .error _ => address

/-- An amount without leading zeros in its quantity. -/
def Amount.normal (a : Amount) : Amount :=
  { a with quantity := String.ofList (Decimal.strip a.quantity.toList) }

/-- A memo that is not empty, or none. -/
def Memo.normal (memo : Option String) : Option String :=
  memo.filter (· ≠ "")

def Transfer.normal (t : Transfer) : Transfer where
  sender := Address.canonical network t.sender
  recipient := Address.canonical network t.recipient
  amount := t.amount.normal
  memo := Memo.normal t.memo

def MessageFee.normal (f : MessageFee) : MessageFee :=
  { f with fee := f.fee.normal }

def AccountConfiguration.normal (c : AccountConfiguration) : AccountConfiguration :=
  { c with owner := Address.canonical network c.owner }

def Participant.normal (p : Participant) : Participant :=
  { p with address := Address.canonical network p.address }

/-! ## Actions -/

/-- An elector's weight under a respelled key. -/
def Elector.respell (e : String × UInt32) : String × UInt32 :=
  (Address.canonical network e.1, e.2)

/-- The entries of a map of electors under respelled keys, in the order of the map. -/
def Elector.respelled (electors : SortedMap UInt32) : List (String × UInt32) :=
  electors.entries.map (Elector.respell network)

/-- A map of electors with its keys respelled. -/
def Elector.normal (electors : SortedMap UInt32) : SortedMap UInt32 :=
  SortedMap.ofList (Elector.respelled network electors)

/-- The electors keep their order, and their number, when their keys are respelled. -/
def Elector.InOrder (electors : SortedMap UInt32) : Prop :=
  (Elector.respelled network electors).Pairwise fun a b => a.1 < b.1

instance (electors : SortedMap UInt32) : Decidable (Elector.InOrder network electors) :=
  inferInstanceAs (Decidable (List.Pairwise _ _))

/-- Of the keys that spell one address, the largest decides on the weight. -/
theorem Elector.mem_normal {electors : SortedMap UInt32} {key : String} {weight : UInt32} :
    (key, weight) ∈ (Elector.normal network electors).entries ↔
      ∃ e ∈ electors.entries, Address.canonical network e.1 = key ∧ e.2 = weight ∧
        ∀ f ∈ electors.entries, Address.canonical network f.1 = key → f.1 ≤ e.1 :=
  SortedMap.mem_ofList_newKeys electors (Address.canonical network)

def Measure.normal : Measure → Measure
  | .releaseEscrow escrowId amount => .releaseEscrow escrowId amount.normal
  | .send transfer => .send (transfer.normal network)
  | .updateElectorate electorateId electors =>
    .updateElectorate electorateId (Elector.normal network electors)
  | .setMessageFee path fee => .setMessageFee path fee.normal
  | .configureCash c => .configureCash {
      owner := Address.canonical network c.owner
      collectorAddress := Address.canonical network c.collectorAddress
      minimalFee := c.minimalFee.map Amount.normal }
  | .configureTxFee c => .configureTxFee
      { c with
        owner := Address.canonical network c.owner
        baseFee := c.baseFee.map Amount.normal }
  | .configureUsernames c => .configureUsernames
      { c with owner := Address.canonical network c.owner }
  | .configureAccounts c => .configureAccounts (c.normal network)
  | .configureMessageFees c => .configureMessageFees {
      owner := Address.canonical network c.owner
      feeAdmin := Address.canonical network c.feeAdmin }
  | unchanged => unchanged

/-- The electors of a measure, if it names any, keep their order. -/
def Measure.ElectorsInOrder : Measure → Prop
  | .updateElectorate _ electors => Elector.InOrder network electors
  | _ => True

mutual

def Action.normal : Action → Action
  | .enact measure => .enact (measure.normal network)
  | .batch members => .batch (Action.normalList members)

def Action.normalList : List Action → List Action
  | [] => []
  | member :: members => member.normal :: Action.normalList members

end

theorem Action.normalList_eq_map (members : List Action) :
    Action.normalList network members = members.map (Action.normal network) := by
  induction members with
  | nil => rfl
  | cons member members ih => rw [Action.normalList, ih, List.map_cons]

/-- The electors of an action, if it names any, keep their order. A batch that
can be written names none. -/
def Action.ElectorsInOrder : Action → Prop
  | .enact measure => measure.ElectorsInOrder network
  | .batch _ => True

/-! ## Operations -/

def SwapOffer.normal (o : SwapOffer) : SwapOffer :=
  { o with
    sender := Address.canonical network o.sender
    recipient := Address.canonical network o.recipient
    amounts := o.amounts.map Amount.normal
    memo := Memo.normal o.memo }

def DomainRegistration.normal (r : DomainRegistration) : DomainRegistration :=
  { r with
    admin := Address.canonical network r.admin
    broker := r.broker.map (Address.canonical network)
    messageFees := r.messageFees.map MessageFee.normal }

def AccountRegistration.normal (r : AccountRegistration) : AccountRegistration :=
  { r with
    owner := Address.canonical network r.owner
    broker := r.broker.map (Address.canonical network) }

def ContractTerms.normal (t : ContractTerms) : ContractTerms :=
  { t with participants := t.participants.map (Participant.normal network) }

def EscrowCreation.normal (e : EscrowCreation) : EscrowCreation :=
  { e with
    sender := Address.canonical network e.sender
    arbiter := Address.canonical network e.arbiter
    recipient := Address.canonical network e.recipient
    amounts := e.amounts.map Amount.normal
    memo := Memo.normal e.memo }

def EscrowParties.normal (p : EscrowParties) : EscrowParties :=
  { p with
    sender := p.sender.map (Address.canonical network)
    arbiter := p.arbiter.map (Address.canonical network)
    recipient := p.recipient.map (Address.canonical network) }

def Proposal.normal (p : Proposal) : Proposal :=
  { p with
    action := p.action.normal network
    author := Address.canonical network p.author }

def Vote.normal (v : Vote) : Vote :=
  { v with voter := v.voter.map (Address.canonical network) }

def Operation.normal : Operation → Operation
  | .send transfer => .send (transfer.normal network)
  | .swapOffer offer => .swapOffer (offer.normal network)
  | .transferUsername username newOwner =>
    .transferUsername username (Address.canonical network newOwner)
  | .updateAccountConfiguration c => .updateAccountConfiguration (c.normal network)
  | .registerDomain registration => .registerDomain (registration.normal network)
  | .transferDomain domain newAdmin =>
    .transferDomain domain (Address.canonical network newAdmin)
  | .registerAccount registration => .registerAccount (registration.normal network)
  | .transferAccount domain name newOwner =>
    .transferAccount domain name (Address.canonical network newOwner)
  | .replaceAccountMessageFees domain fees =>
    .replaceAccountMessageFees domain (fees.map MessageFee.normal)
  | .createContract terms => .createContract (terms.normal network)
  | .updateContract contractId terms => .updateContract contractId (terms.normal network)
  | .createEscrow escrow => .createEscrow (escrow.normal network)
  | .releaseEscrow escrowId amounts => .releaseEscrow escrowId (amounts.map Amount.normal)
  | .updateEscrowParties parties => .updateEscrowParties (parties.normal network)
  | .createProposal proposal => .createProposal (proposal.normal network)
  | .vote v => .vote (v.normal network)
  | unchanged => unchanged

theorem Operation.kind_normal (operation : Operation) :
    (operation.normal network).kind = operation.kind := by
  cases operation <;> rfl

/-- The electors of an operation, if it names any, keep their order. -/
def Operation.ElectorsInOrder : Operation → Prop
  | .createProposal proposal => proposal.action.ElectorsInOrder network
  | _ => True

/-! ## Transactions -/

def Fee.normal (fee : Fee) : Fee where
  tokens := fee.tokens.map Amount.normal
  payer := fee.payer.map (Address.canonical network)

namespace Transaction

def normal (tx : Transaction) : Transaction :=
  { tx with
    fee := tx.fee.map (Fee.normal tx.network)
    operation := tx.operation.normal tx.network }

/-- The electors of a transaction, if it names any, keep their order. -/
def ElectorsInOrder (tx : Transaction) : Prop :=
  tx.operation.ElectorsInOrder tx.network

end Transaction

/-- The normal form of a signed transaction; signatures have one spelling only. -/
def SignedTransaction.normal (s : SignedTransaction) : SignedTransaction :=
  { s with transaction := s.transaction.normal }

end NameService
