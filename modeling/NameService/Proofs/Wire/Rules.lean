import Mathlib.Algebra.Group.Int.Defs
import Mathlib.Algebra.Group.Nat.Defs
import NameService.Transaction.Envelope

/-
  What the chain asks of a message, field by field.

  A transaction that breaks one of these rules, at whatever depth, is not taken by the
  chain. `X.parts` lists the fields of a message that have a rule, those of the messages
  in it included, and `Part.Valid` says what the rule is. Some rules are about more than
  the form of a field: of the parties of an escrow one changes at a time
  (`UpdateEscrowParties.Obeys`), a proposal holds its action as the bytes of a message
  (`CreateProposal.Obeys`), and usernames and voters have conditions of their own
  (`Body.Obeys`). `Tx.Obeys` is all of this for the envelope.
-/

namespace NameService.Wire

/-! ## Single fields -/

/-- A field with a rule. -/
inductive Part where
  /-- The header of a message. -/
  | header (m : Option Metadata)
  | coin (c : Coin)
  /-- An address that must be there. -/
  | address (hash : Bytes)
  | optionalAddress (hash : Bytes)
  | id (bs : Bytes)
  /-- The hash of a swap, or the preimage of it. -/
  | swapHash (bs : Bytes)
  | memo (text : String)
  /-- The number of what a voter has chosen. -/
  | choice (n : Int32)
  | fraction (f : Fraction)
  /-- The public key of a validator. -/
  | validator (key : Option ValidatorKey)
  /-- A byte string that must not be empty. -/
  | filled (bs : Bytes)
  /-- Whether an embedded message is there that must be. -/
  | given (present : Bool)

/-- A coin of less than 2^63 whole units, with less than one unit in billionths. -/
structure Coin.InRange (c : Coin) : Prop where
  whole_nonneg : 0 ≤ c.whole.toInt
  whole_lt : c.whole.toInt < 2 ^ 63
  fractional_nonneg : 0 ≤ c.fractional.toInt
  fractional_lt : c.fractional.toInt < 10 ^ 9

/-- The rule for a field. -/
def Part.Valid : Part → Prop
  | header m => m = some ⟨1⟩
  | coin c => c.InRange
  | address hash => hash.length = 20
  | optionalAddress hash => hash = [] ∨ hash.length = 20
  | id bs => bs.length = 8
  | swapHash bs => bs.length = 32
  | memo text => (Bytes.ofText text).length ≤ 128
  | choice n => n = 1 ∨ n = 2 ∨ n = 3
  | fraction f => f.denominator ≠ 0
  | validator key => ∃ data : Bytes, key = some ⟨"ed25519", data⟩ ∧ data.length = 32
  | filled bs => bs ≠ []
  | given present => present = true

/-- Every field of a list obeys its rule. -/
def AllValid (parts : List Part) : Prop :=
  ∀ part ∈ parts, part.Valid

/-! ## Payments -/

def Send.parts (m : Send) : List Part :=
  .header m.metadata :: .address m.source :: .address m.destination :: .given m.amount.isSome ::
    .memo m.memo :: m.amount.toList.map .coin

def FeeInfo.parts (m : FeeInfo) : List Part :=
  .header m.metadata :: .optionalAddress m.payer :: m.fees.toList.map .coin

def CashConfiguration.parts (m : CashConfiguration) : List Part :=
  .header m.metadata :: .address m.owner :: .address m.collectorAddress ::
    m.minimalFee.toList.map .coin

def TxFeeConfiguration.parts (m : TxFeeConfiguration) : List Part :=
  .header m.metadata :: .address m.owner :: m.baseFee.toList.map .coin

def MessageFeeConfiguration.parts (m : MessageFeeConfiguration) : List Part :=
  [.header m.metadata, .address m.owner, .address m.feeAdmin]

def SetMessageFee.parts (m : SetMessageFee) : List Part :=
  .header m.metadata :: .given m.fee.isSome :: m.fee.toList.map .coin

def CreateSwap.parts (m : CreateSwap) : List Part :=
  .header m.metadata :: .address m.source :: .swapHash m.preimageHash :: .address m.destination ::
    .memo m.memo :: m.amount.map .coin

def ReleaseSwap.parts (m : ReleaseSwap) : List Part :=
  [.header m.metadata, .id m.swapId, .swapHash m.preimage]

def CreateEscrow.parts (m : CreateEscrow) : List Part :=
  .header m.metadata :: .address m.source :: .address m.arbiter :: .address m.destination ::
    .memo m.memo :: m.amount.map .coin

def ReleaseEscrow.parts (m : ReleaseEscrow) : List Part :=
  .header m.metadata :: .id m.escrowId :: m.amount.map .coin

def UpdateEscrowParties.parts (m : UpdateEscrowParties) : List Part :=
  [.header m.metadata, .id m.escrowId, .optionalAddress m.source, .optionalAddress m.arbiter,
    .optionalAddress m.destination]

/-- The change of a configuration, with the fields of the configuration. -/
def Update.parts {γ : Type} (patchParts : γ → List Part) (m : Update γ) : List Part :=
  .header m.metadata :: .given m.patch.isSome :: m.patch.toList.flatMap patchParts

def Reference.parts (m : Reference) : List Part :=
  [.header m.metadata, .id m.id]

/-! ## Names -/

def UsernameTargets.parts (m : UsernameTargets) : List Part :=
  [.header m.metadata]

def TransferUsername.parts (m : TransferUsername) : List Part :=
  [.header m.metadata, .address m.newOwner]

def UsernameConfiguration.parts (m : UsernameConfiguration) : List Part :=
  [.header m.metadata, .address m.owner]

def AccountConfiguration.parts (m : AccountConfiguration) : List Part :=
  [.header m.metadata, .address m.owner]

def MessageFee.parts (m : MessageFee) : List Part :=
  .given m.fee.isSome :: m.fee.toList.map .coin

def RegisterDomain.parts (m : RegisterDomain) : List Part :=
  .header m.metadata :: .address m.admin :: .optionalAddress m.thirdPartyToken ::
    m.messageFees.flatMap MessageFee.parts

def ReplaceMessageFees.parts (m : ReplaceMessageFees) : List Part :=
  .header m.metadata :: m.newMessageFees.flatMap MessageFee.parts

def TransferDomain.parts (m : TransferDomain) : List Part :=
  [.header m.metadata, .address m.newAdmin]

def DomainReference.parts (m : DomainReference) : List Part :=
  [.header m.metadata]

def RegisterAccount.parts (m : RegisterAccount) : List Part :=
  [.header m.metadata, .address m.owner, .optionalAddress m.thirdPartyToken]

def TransferAccount.parts (m : TransferAccount) : List Part :=
  [.header m.metadata, .address m.newOwner]

def ReplaceTargets.parts (m : ReplaceTargets) : List Part :=
  [.header m.metadata]

def AccountReference.parts (m : AccountReference) : List Part :=
  [.header m.metadata]

def AddCertificate.parts (m : AddCertificate) : List Part :=
  [.header m.metadata, .filled m.certificate]

def DeleteCertificate.parts (m : DeleteCertificate) : List Part :=
  [.header m.metadata, .filled m.certificateHash]

/-! ## Governance -/

/-- The addresses of participants. -/
def Participant.parts (participants : List Participant) : List Part :=
  participants.map fun p => .address p.signature

def CreateContract.parts (m : CreateContract) : List Part :=
  .header m.metadata :: Participant.parts m.participants

def UpdateContract.parts (m : UpdateContract) : List Part :=
  .header m.metadata :: .id m.contractId :: Participant.parts m.participants

/-- The fields of a proposal apart from its action. -/
def CreateProposal.parts (m : CreateProposal) : List Part :=
  [.header m.metadata, .filled m.rawOption, .id m.electionRuleId, .address m.author]

def Vote.parts (m : Vote) : List Part :=
  [.header m.metadata, .id m.proposalId, .optionalAddress m.voter, .choice m.selected]

def TextResolution.parts (m : TextResolution) : List Part :=
  [.header m.metadata]

def UpdateElectorate.parts (m : UpdateElectorate) : List Part :=
  .header m.metadata :: .id m.electorateId :: m.diffElectors.map fun e => .address e.address

def UpdateElectionRule.parts (m : UpdateElectionRule) : List Part :=
  .header m.metadata :: .id m.electionRuleId ::
    m.threshold.toList.map .fraction ++ m.quorum.toList.map .fraction

def ApplyDiff.parts (m : ApplyDiff) : List Part :=
  .header m.metadata :: m.validatorUpdates.map fun u => .validator u.publicKey

def UpgradeSchema.parts (m : UpgradeSchema) : List Part :=
  [.header m.metadata]

def ExecuteMigration.parts (m : ExecuteMigration) : List Part :=
  [.header m.metadata, .filled (Bytes.ofText m.migrationId)]

/-! ## Actions -/

def BatchMember.parts : BatchMember → List Part
  | .send m => m.parts
  | .releaseEscrow m => m.parts

def BatchPlace.parts (place : BatchPlace) : List Part :=
  .given place.member.isSome :: place.member.toList.flatMap BatchMember.parts

/-- The fields of an action; a batch has no header, but its members have. -/
def ProposalOption.parts : ProposalOption → List Part
  | .send m => m.parts
  | .releaseEscrow m => m.parts
  | .applyDiff m => m.parts
  | .batch m => m.messages.flatMap BatchPlace.parts
  | .upgradeSchema m => m.parts
  | .updateElectorate m => m.parts
  | .updateElectionRule m => m.parts
  | .textResolution m => m.parts
  | .setMessageFee m => m.parts
  | .executeMigration m => m.parts
  | .updateCash m => m.parts CashConfiguration.parts
  | .updateTxFee m => m.parts TxFeeConfiguration.parts
  | .updateUsername m => m.parts UsernameConfiguration.parts
  | .updateAccount m => m.parts AccountConfiguration.parts
  | .updateMessageFee m => m.parts MessageFeeConfiguration.parts

/-! ## Transactions -/

def Body.parts : Body → List Part
  | .send m => m.parts
  | .createEscrow m => m.parts
  | .releaseEscrow m => m.parts
  | .returnEscrow m => m.parts
  | .updateEscrowParties m => m.parts
  | .createContract m => m.parts
  | .updateContract m => m.parts
  | .registerUsername m => m.parts
  | .transferUsername m => m.parts
  | .changeUsernameTargets m => m.parts
  | .createSwap m => m.parts
  | .releaseSwap m => m.parts
  | .returnSwap m => m.parts
  | .createProposal m => m.parts
  | .deleteProposal m => m.parts
  | .vote m => m.parts
  | .tally m => m.parts
  | .updateAccountConfiguration m => m.parts AccountConfiguration.parts
  | .registerDomain m => m.parts
  | .replaceMessageFees m => m.parts
  | .transferDomain m => m.parts
  | .renewDomain m => m.parts
  | .deleteDomain m => m.parts
  | .registerAccount m => m.parts
  | .transferAccount m => m.parts
  | .replaceTargets m => m.parts
  | .deleteAccount m => m.parts
  | .flushDomain m => m.parts
  | .renewAccount m => m.parts
  | .addCertificate m => m.parts
  | .deleteCertificate m => m.parts

/-- The fields of fee, contracts and message; signatures have rules of their own. -/
def Tx.parts (m : Tx) : List Part :=
  m.fees.toList.flatMap FeeInfo.parts ++ m.multisig.map .id ++ m.body.toList.flatMap Body.parts

/-! ## Other rules -/

/-- Exactly one of the three parties is named. -/
def UpdateEscrowParties.Obeys (m : UpdateEscrowParties) : Prop :=
  ([m.source, m.arbiter, m.destination].filter fun hash => !hash.isEmpty).length = 1

/-- The bytes of a proposal's action are those of one action, whose fields obey their rules.
If a reader can hold them at all, they are read for the same network. -/
def CreateProposal.Obeys (network : Network) (m : CreateProposal) : Prop :=
  ∃ option : ProposalOption, m.rawOption = Message.encode (⟨some option⟩ : ProposalOptions) ∧
    AllValid option.parts ∧
    (m.rawOption.length < 2 ^ 63 →
      Message.decode? m.rawOption = some (⟨some option⟩ : ProposalOptions) ∧
        ∃ action, Action.decode network m.rawOption = .ok action)

/-- The rules of a message that are about more than the form of a field; a vote may leave
out the voter unless the writer is strict. -/
def Body.Obeys (network : Network) (strict : Bool) : Body → Prop
  | .updateEscrowParties m => m.Obeys
  | .createProposal m => m.Obeys network
  | .registerUsername m => ∃ name : String, m.username = name ++ "*iov"
  | .vote m => strict = true → m.voter ≠ []
  | _ => True

/-- A signature is there, with a key of the one scheme that is taken. -/
def Signature.Obeys (m : Signature) : Prop :=
  ∃ key signature : Bytes, m.publicKey = some ⟨some key⟩ ∧ key.length = 32 ∧
    m.signature = some ⟨some signature⟩

/-- What the chain of a network asks of a transaction. -/
structure Tx.Obeys (network : Network) (strict : Bool) (m : Tx) : Prop where
  parts : AllValid m.parts
  signed : m.signatures ≠ []
  signatures : ∀ signature ∈ m.signatures, signature.Obeys
  body : ∃ body, m.body = some body ∧ body.Obeys network strict

end NameService.Wire
