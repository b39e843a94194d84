import NameService.Action.Wire
import NameService.Operation
import NameService.Wire.Tx

/-
  Operations against their wire messages.

  Writing checks what the chain would refuse: spelling and network of every
  address, range of every amount, length of memos, hashes and ids. Reading
  checks the same of the wire and spells every address for the network of the
  chain. Where several things are wrong, the first check in the order of the
  steps decides.
-/

namespace NameService

/-! ## Swaps -/

/-- The number of bytes of a swap's preimage, and of its hash. -/
def swapHashLength : Nat := 32

def swapIdLength : Nat := 8

namespace SwapOffer

def toWire (network : Network) (o : SwapOffer) : Except Error Wire.CreateSwap := do
  let preimageHash ← Check.exactly "hash" swapHashLength o.hash
  let source ← Address.decodeFor network o.sender
  let destination ← Address.decodeFor network o.recipient
  let amount ← o.amounts.mapM Amount.toCoin
  let memo ← Memo.encode o.memo
  return ⟨Wire.header, source, preimageHash, destination, amount, o.timeout, memo⟩

def ofWire (network : Network) (m : Wire.CreateSwap) : Except Error SwapOffer := do
  let sender ← Address.ofField network "source" m.source
  let recipient ← Address.ofField network "destination" m.destination
  let amounts ← m.amount.mapM Amount.ofCoin
  let hash ← Check.fixed "preimageHash" swapHashLength m.preimageHash
  return ⟨sender, recipient, amounts, hash, m.timeout, Memo.decode m.memo⟩

end SwapOffer

/-! ## Names -/

def usernameNamespace : String := "*iov"

/-- A username that ends with its namespace. -/
def checkUsername (username : String) : Except Error String :=
  if usernameNamespace.toList.isSuffixOf username.toList then .ok username
  else .error (.violation .usernameNamespace)

namespace DomainRegistration

def toWire (network : Network) (r : DomainRegistration) : Except Error Wire.RegisterDomain := do
  let admin ← Address.decodeFor network r.admin
  let thirdPartyToken ← Address.decodeFor? network r.broker
  let messageFees ← r.messageFees.mapM MessageFee.toWire
  return ⟨Wire.header, r.domain, admin, r.hasSuperuser, thirdPartyToken, messageFees,
    r.accountRenew⟩

def ofWire (network : Network) (m : Wire.RegisterDomain) : Except Error DomainRegistration := do
  let admin ← Address.ofField network "admin" m.admin
  let broker ← Address.ofField? network "thirdPartyToken" m.thirdPartyToken
  let messageFees ← m.messageFees.mapM MessageFee.ofWire
  return ⟨m.domain, admin, m.hasSuperuser, broker, messageFees, m.accountRenew⟩

end DomainRegistration

namespace AccountRegistration

def toWire (network : Network) (r : AccountRegistration) : Except Error Wire.RegisterAccount := do
  let owner ← Address.decodeFor network r.owner
  let thirdPartyToken ← Address.decodeFor? network r.broker
  return ⟨Wire.header, r.domain, r.name, owner, r.targets.map Target.toWire, thirdPartyToken⟩

def ofWire (network : Network) (m : Wire.RegisterAccount) : Except Error AccountRegistration := do
  let owner ← Address.ofField network "owner" m.owner
  let broker ← Address.ofField? network "thirdPartyToken" m.thirdPartyToken
  return ⟨m.domain, m.name, owner, m.targets.map Target.ofWire, broker⟩

end AccountRegistration

/-! ## Escrows -/

namespace EscrowCreation

def toWire (network : Network) (e : EscrowCreation) : Except Error Wire.CreateEscrow := do
  let source ← Address.decodeFor network e.sender
  let arbiter ← Address.decodeFor network e.arbiter
  let destination ← Address.decodeFor network e.recipient
  let amount ← e.amounts.mapM Amount.toCoin
  let memo ← Memo.encode e.memo
  return ⟨Wire.header, source, arbiter, destination, amount, e.timeout, memo⟩

def ofWire (network : Network) (m : Wire.CreateEscrow) : Except Error EscrowCreation := do
  let sender ← Address.ofField network "source" m.source
  let arbiter ← Address.ofField network "arbiter" m.arbiter
  let recipient ← Address.ofField network "destination" m.destination
  let amounts ← m.amount.mapM Amount.ofCoin
  return ⟨sender, arbiter, recipient, amounts, m.timeout, Memo.decode m.memo⟩

end EscrowCreation

namespace EscrowParties

def count (p : EscrowParties) : Nat :=
  ([p.sender, p.arbiter, p.recipient].filter Option.isSome).length

/-- The wire message of new parties, of which exactly one must be named. -/
def toWire (network : Network) (p : EscrowParties) : Except Error Wire.UpdateEscrowParties := do
  if p.count ≠ 1 then throw (.violation (.partyCount p.count))
  let source ← Address.decodeFor? network p.sender
  let arbiter ← Address.decodeFor? network p.arbiter
  let destination ← Address.decodeFor? network p.recipient
  return ⟨Wire.header, Id.encode p.escrowId, source, arbiter, destination⟩

def ofWire (network : Network) (m : Wire.UpdateEscrowParties) : Except Error EscrowParties := do
  let escrowId ← Id.ofField "escrowId" m.escrowId
  let sender ← Address.ofField? network "source" m.source
  let arbiter ← Address.ofField? network "arbiter" m.arbiter
  let recipient ← Address.ofField? network "destination" m.destination
  return ⟨escrowId, sender, arbiter, recipient⟩

end EscrowParties

/-! ## Governance -/

namespace Proposal

def toWire (network : Network) (p : Proposal) : Except Error Wire.CreateProposal := do
  let rawOption ← p.action.encode network
  let author ← Address.decodeFor network p.author
  return ⟨Wire.header, p.title, rawOption, p.description, Id.encode p.electionRuleId,
    p.startTime, author⟩

def ofWire (network : Network) (m : Wire.CreateProposal) : Except Error Proposal := do
  let rawOption ← Check.present "rawOption" m.rawOption
  let action ← Action.decode network rawOption
  let electionRuleId ← Id.ofField "electionRuleId" m.electionRuleId
  let author ← Address.ofField network "author" m.author
  return ⟨m.title, action, m.description, electionRuleId, m.startTime, author⟩

end Proposal

namespace Selection

def number : Selection → Int32
  | yes => 1
  | no => 2
  | abstain => 3

/-- The choice of a number; 0 is no choice. -/
def ofNumber (n : Int32) : Except Error Selection :=
  if n = 0 then .error (.violation .noSelection)
  else if n = 1 then .ok yes
  else if n = 2 then .ok no
  else if n = 3 then .ok abstain
  else .error (.violation (.unknownSelection n))

end Selection

namespace Vote

/-- The wire message of a vote, which must name its voter when `strict`. -/
def toWire (network : Network) (strict : Bool) (v : Vote) : Except Error Wire.Vote := do
  if strict && v.voter.isNone then throw (.violation .missingVoter)
  let voter ← Address.decodeFor? network v.voter
  return ⟨Wire.header, Id.encode v.proposalId, voter, v.selection.number⟩

def ofWire (network : Network) (m : Wire.Vote) : Except Error Vote := do
  let voter ← Address.ofField? network "voter" m.voter
  let proposalId ← Id.ofField "proposalId" m.proposalId
  let selection ← Selection.ofNumber m.selected
  return ⟨proposalId, selection, voter⟩

end Vote

/-! ## Operations -/

namespace Operation

/-- The wire message of an operation; when `strict`, nothing is left to what the
chain assumes. -/
def toWire (network : Network) (strict : Bool) : Operation → Except Error Wire.Body
  | send transfer => do
    let m ← transfer.toWire network
    return .send m
  | swapOffer offer => do
    let m ← offer.toWire network
    return .createSwap m
  | swapClaim swapId preimage => do
    let swapId ← Check.exactly "swapId" swapIdLength swapId
    let preimage ← Check.exactly "preimage" swapHashLength preimage
    return .releaseSwap ⟨Wire.header, swapId, preimage⟩
  | swapAbort swapId => do
    let swapId ← Check.exactly "swapId" swapIdLength swapId
    return .returnSwap ⟨Wire.header, swapId⟩
  | registerUsername username targets => do
    let username ← checkUsername username
    return .registerUsername ⟨Wire.header, username, targets.map Target.toWire⟩
  | updateUsernameTargets username targets =>
    return .changeUsernameTargets ⟨Wire.header, username, targets.map Target.toWire⟩
  | transferUsername username newOwner => do
    let newOwner ← Address.decodeFor network newOwner
    return .transferUsername ⟨Wire.header, username, newOwner⟩
  | updateAccountConfiguration configuration => do
    let m ← configuration.toUpdate network
    return .updateAccountConfiguration m
  | registerDomain registration => do
    let m ← registration.toWire network
    return .registerDomain m
  | transferDomain domain newAdmin => do
    let newAdmin ← Address.decodeFor network newAdmin
    return .transferDomain ⟨Wire.header, domain, newAdmin⟩
  | renewDomain domain =>
    return .renewDomain ⟨Wire.header, domain⟩
  | deleteDomain domain =>
    return .deleteDomain ⟨Wire.header, domain⟩
  | registerAccount registration => do
    let m ← registration.toWire network
    return .registerAccount m
  | transferAccount domain name newOwner => do
    let newOwner ← Address.decodeFor network newOwner
    return .transferAccount ⟨Wire.header, domain, name, newOwner⟩
  | replaceAccountTargets domain name newTargets =>
    return .replaceTargets ⟨Wire.header, domain, name, newTargets.map Target.toWire⟩
  | deleteAccount domain name =>
    return .deleteAccount ⟨Wire.header, domain, name⟩
  | deleteAllAccounts domain =>
    return .flushDomain ⟨Wire.header, domain⟩
  | renewAccount domain name =>
    return .renewAccount ⟨Wire.header, domain, name⟩
  | addAccountCertificate domain name certificate => do
    let certificate ← Check.present "certificate" certificate
    return .addCertificate ⟨Wire.header, domain, name, certificate⟩
  | replaceAccountMessageFees domain newMessageFees => do
    let fees ← newMessageFees.mapM MessageFee.toWire
    return .replaceMessageFees ⟨Wire.header, domain, fees⟩
  | deleteAccountCertificate domain name certificateHash => do
    let certificateHash ← Check.present "certificateHash" certificateHash
    return .deleteCertificate ⟨Wire.header, domain, name, certificateHash⟩
  | createContract terms => do
    let participants ← Participant.listToWire network terms.participants
    return .createContract
      ⟨Wire.header, participants, terms.activationThreshold, terms.adminThreshold⟩
  | updateContract contractId terms => do
    let participants ← Participant.listToWire network terms.participants
    return .updateContract ⟨Wire.header, Id.encode contractId, participants,
      terms.activationThreshold, terms.adminThreshold⟩
  | createEscrow escrow => do
    let m ← escrow.toWire network
    return .createEscrow m
  | releaseEscrow escrowId amounts => do
    let amount ← amounts.mapM Amount.toCoin
    return .releaseEscrow ⟨Wire.header, Id.encode escrowId, amount⟩
  | returnEscrow escrowId =>
    return .returnEscrow ⟨Wire.header, Id.encode escrowId⟩
  | updateEscrowParties parties => do
    let m ← parties.toWire network
    return .updateEscrowParties m
  | createProposal proposal => do
    let m ← proposal.toWire network
    return .createProposal m
  | vote v => do
    let m ← v.toWire network strict
    return .vote m

/-- The operation of a wire message. Deleting a proposal and tallying one are
not handled. -/
def ofWire (network : Network) : Wire.Body → Except Error Operation
  | .send m => do
    let transfer ← Transfer.ofWire network m
    return send transfer
  | .createSwap m => do
    let offer ← SwapOffer.ofWire network m
    return swapOffer offer
  | .releaseSwap m => do
    let swapId ← Check.fixed "swapId" swapIdLength m.swapId
    let preimage ← Check.fixed "preimage" swapHashLength m.preimage
    return swapClaim swapId preimage
  | .returnSwap m => do
    let swapId ← Check.fixed "swapId" swapIdLength m.id
    return swapAbort swapId
  | .registerUsername m =>
    return registerUsername m.username (m.targets.map Target.ofWire)
  | .changeUsernameTargets m =>
    return updateUsernameTargets m.username (m.targets.map Target.ofWire)
  | .transferUsername m => do
    let newOwner ← Address.ofField network "newOwner" m.newOwner
    return transferUsername m.username newOwner
  | .updateAccountConfiguration m => do
    let configuration ← AccountConfiguration.ofUpdate network m
    return updateAccountConfiguration configuration
  | .registerDomain m => do
    let registration ← DomainRegistration.ofWire network m
    return registerDomain registration
  | .transferDomain m => do
    let newAdmin ← Address.ofField network "newAdmin" m.newAdmin
    return transferDomain m.domain newAdmin
  | .renewDomain m =>
    return renewDomain m.domain
  | .deleteDomain m =>
    return deleteDomain m.domain
  | .registerAccount m => do
    let registration ← AccountRegistration.ofWire network m
    return registerAccount registration
  | .transferAccount m => do
    let newOwner ← Address.ofField network "newOwner" m.newOwner
    return transferAccount m.domain m.name newOwner
  | .replaceTargets m =>
    return replaceAccountTargets m.domain m.name (m.newTargets.map Target.ofWire)
  | .deleteAccount m =>
    return deleteAccount m.domain m.name
  | .flushDomain m =>
    return deleteAllAccounts m.domain
  | .renewAccount m =>
    return renewAccount m.domain m.name
  | .addCertificate m => do
    let certificate ← Check.present "certificate" m.certificate
    return addAccountCertificate m.domain m.name certificate
  | .replaceMessageFees m => do
    let fees ← m.newMessageFees.mapM MessageFee.ofWire
    return replaceAccountMessageFees m.domain fees
  | .deleteCertificate m => do
    let certificateHash ← Check.present "certificateHash" m.certificateHash
    return deleteAccountCertificate m.domain m.name certificateHash
  | .createContract m => do
    let participants ← Participant.listOfWire network m.participants
    return createContract ⟨participants, m.activationThreshold, m.adminThreshold⟩
  | .updateContract m => do
    let contractId ← Id.ofField "contractId" m.contractId
    let participants ← Participant.listOfWire network m.participants
    return updateContract contractId ⟨participants, m.activationThreshold, m.adminThreshold⟩
  | .createEscrow m => do
    let escrow ← EscrowCreation.ofWire network m
    return createEscrow escrow
  | .releaseEscrow m => do
    let escrowId ← Id.ofField "escrowId" m.escrowId
    let amounts ← m.amount.mapM Amount.ofCoin
    return releaseEscrow escrowId amounts
  | .returnEscrow m => do
    let escrowId ← Id.ofField "escrowId" m.id
    return returnEscrow escrowId
  | .updateEscrowParties m => do
    let parties ← EscrowParties.ofWire network m
    return updateEscrowParties parties
  | .createProposal m => do
    let proposal ← Proposal.ofWire network m
    return createProposal proposal
  | .vote m => do
    let v ← Vote.ofWire network m
    return vote v
  | .deleteProposal _ => .error (.unsupported .message)
  | .tally _ => .error (.unsupported .message)

end Operation

end NameService
