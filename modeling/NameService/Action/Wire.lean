import NameService.Action
import NameService.Id
import NameService.Validator
import NameService.Wire.Proposal

/-
  Actions against their wire messages.

  A proposal holds its action as the bytes of a message of its own, so that
  `Action.encode` and `Action.decode` stand apart from the message that
  surrounds them.
-/

namespace NameService

/-! ## Parts -/

namespace Fraction

/-- A fraction that is one: its denominator is not 0. -/
def check (f : Fraction) : Except Error Fraction :=
  if f.denominator = 0 then .error (.violation .zeroDenominator) else .ok f

def toWire (f : Fraction) : Except Error Wire.Fraction := do
  let f ← f.check
  return ⟨f.numerator, f.denominator⟩

def ofWire (m : Wire.Fraction) : Except Error Fraction :=
  check ⟨m.numerator, m.denominator⟩

end Fraction

namespace Elector

/-- The wire messages of new weights, in the order of the addresses' spelling. -/
def updatesToWire (network : Network) (electors : SortedMap UInt32) :
    Except Error (List Wire.Elector) :=
  electors.entries.mapM fun (address, weight) => do
    let address ← Address.decodeFor network address
    return ⟨address, weight⟩

def updateOfWire (network : Network) (m : Wire.Elector) : Except Error (String × UInt32) := do
  let address ← Address.ofField network "address" m.address
  return (address, m.weight)

def updatesOfWire (network : Network) (ms : List Wire.Elector) :
    Except Error (SortedMap UInt32) := do
  let electors ← ms.mapM (updateOfWire network)
  return SortedMap.ofList electors

end Elector

/-! ## Writing -/

namespace Measure

/-- The wire message of a transfer that a proposal makes, alone or in a batch. -/
def transferToWire (network : Network) (t : Transfer) : Except Error Wire.Send := do
  let source ← Address.decodeFor network t.sender
  let destination ← Address.decodeFor network t.recipient
  let amount ← t.amount.toCoin
  let memo ← Memo.encode t.memo
  return ⟨Wire.header, source, destination, some amount, memo, []⟩

def toWire (network : Network) : Measure → Except Error Wire.ProposalOption
  | .textResolution resolution =>
    return .textResolution ⟨Wire.header, resolution⟩
  | .releaseEscrow escrowId amount => do
    let coin ← amount.toCoin
    return .releaseEscrow ⟨Wire.header, Id.encode escrowId, [coin]⟩
  | .send transfer => do
    let m ← transferToWire network transfer
    return .send m
  | .setValidators updates => do
    let updates ← Validator.updatesToWire updates
    return .applyDiff ⟨Wire.header, updates⟩
  | .updateElectionRule rule => do
    let threshold ← Check.optionally Fraction.toWire rule.threshold
    let quorum ← Check.optionally Fraction.toWire rule.quorum
    return .updateElectionRule
      ⟨Wire.header, Id.encode rule.electionRuleId, rule.votingPeriod, threshold, quorum⟩
  | .updateElectorate electorateId electors => do
    let electors ← Elector.updatesToWire network electors
    return .updateElectorate ⟨Wire.header, Id.encode electorateId, electors⟩
  | .setMessageFee path fee => do
    let coin ← fee.toCoin
    return .setMessageFee ⟨Wire.header, path, some coin⟩
  | .executeMigration id => do
    if id = "" then throw (.missing "migrationId")
    return .executeMigration ⟨Wire.header, id⟩
  | .upgradeSchema package toVersion =>
    return .upgradeSchema ⟨Wire.header, package, toVersion⟩
  | .configureCash c => do
    let owner ← Address.decodeFor network c.owner
    let collector ← Address.decodeFor network c.collectorAddress
    let fee ← Check.optionally Amount.toCoin c.minimalFee
    return .updateCash ⟨Wire.header, some ⟨Wire.header, owner, collector, fee⟩⟩
  | .configureTxFee c => do
    let owner ← Address.decodeFor network c.owner
    let fee ← Check.optionally Amount.toCoin c.baseFee
    return .updateTxFee ⟨Wire.header, some ⟨Wire.header, owner, c.freeBytes, fee⟩⟩
  | .configureUsernames c => do
    let owner ← Address.decodeFor network c.owner
    return .updateUsername
      ⟨Wire.header, some ⟨Wire.header, owner, c.validUsernameName, c.validUsernameLabel⟩⟩
  | .configureAccounts c => do
    let patch ← c.toWire network
    return .updateAccount ⟨Wire.header, some patch⟩
  | .configureMessageFees c => do
    let owner ← Address.decodeFor network c.owner
    let feeAdmin ← Address.decodeFor network c.feeAdmin
    return .updateMessageFee ⟨Wire.header, some ⟨Wire.header, owner, feeAdmin⟩⟩

end Measure

namespace Action

/-- The place in a batch of an action, which must be a transfer. -/
def memberToWire (network : Network) : Action → Except Error Wire.BatchPlace
  | .enact (.send transfer) => do
    let m ← Measure.transferToWire network transfer
    return ⟨some (.send m)⟩
  | _ => .error (.unsupported .batchMember)

def toWire (network : Network) : Action → Except Error Wire.ProposalOption
  | .enact measure => measure.toWire network
  | .batch members => do
    let places ← members.mapM (memberToWire network)
    return .batch ⟨places⟩

/-- The bytes that a proposal holds for an action. -/
def encode (network : Network) (action : Action) : Except Error Bytes := do
  let option ← action.toWire network
  return Wire.Message.encode (⟨some option⟩ : Wire.ProposalOptions)

/-! ## Reading -/

/-- The transfer that a proposal makes by a wire message. -/
def transferOfWire (network : Network) (m : Wire.Send) : Except Error Transfer := do
  let sender ← Address.ofField network "source" m.source
  let recipient ← Address.ofField network "destination" m.destination
  let amount ← Amount.ofField "amount" m.amount
  return ⟨sender, recipient, amount, (some m.memo).filter (· ≠ "")⟩

/-- The action at a place in a batch, which must hold a transfer. -/
def memberOfWire (network : Network) : Wire.BatchPlace → Except Error Action
  | ⟨some (.send m)⟩ => do
    let transfer ← transferOfWire network m
    return .enact (.send transfer)
  | _ => .error (.unsupported .batchMember)

/-- The action of a wire message. Of the coins that an escrow releases only the
first is read. -/
def ofWire (network : Network) : Wire.ProposalOption → Except Error Action
  | .textResolution m =>
    return .enact (.textResolution m.resolution)
  | .batch m => do
    let members ← m.messages.mapM (memberOfWire network)
    return .batch members
  | .releaseEscrow m => do
    let coin ← Check.given "amount.0" m.amount.head?
    let escrowId ← Id.ofField "escrowId" m.escrowId
    let amount ← Amount.ofCoin coin
    return .enact (.releaseEscrow escrowId amount)
  | .send m => do
    let transfer ← transferOfWire network m
    return .enact (.send transfer)
  | .applyDiff m => do
    let updates ← Validator.updatesOfWire m.validatorUpdates
    return .enact (.setValidators updates)
  | .updateElectionRule m => do
    let electionRuleId ← Id.ofField "electionRuleId" m.electionRuleId
    let threshold ← Check.optionally Fraction.ofWire m.threshold
    let quorum ← Check.optionally Fraction.ofWire m.quorum
    return .enact (.updateElectionRule ⟨electionRuleId, threshold, quorum, m.votingPeriod⟩)
  | .updateElectorate m => do
    let electorateId ← Id.ofField "electorateId" m.electorateId
    let electors ← Elector.updatesOfWire network m.diffElectors
    return .enact (.updateElectorate electorateId electors)
  | .setMessageFee m => do
    let fee ← Amount.ofField "fee" m.fee
    return .enact (.setMessageFee m.messagePath fee)
  | .executeMigration m => do
    if m.migrationId = "" then throw (.missing "migrationId")
    return .enact (.executeMigration m.migrationId)
  | .upgradeSchema m =>
    return .enact (.upgradeSchema m.package m.toVersion)
  | .updateCash m => do
    let patch ← Check.given "patch" m.patch
    let owner ← Address.ofField network "owner" patch.owner
    let collectorAddress ← Address.ofField network "collectorAddress" patch.collectorAddress
    let minimalFee ← Check.optionally Amount.ofCoin patch.minimalFee
    return .enact (.configureCash ⟨owner, collectorAddress, minimalFee⟩)
  | .updateTxFee m => do
    let patch ← Check.given "patch" m.patch
    let owner ← Address.ofField network "owner" patch.owner
    let baseFee ← Check.optionally Amount.ofCoin patch.baseFee
    return .enact (.configureTxFee ⟨owner, patch.freeBytes, baseFee⟩)
  | .updateUsername m => do
    let patch ← Check.given "patch" m.patch
    let owner ← Address.ofField network "owner" patch.owner
    return .enact
      (.configureUsernames ⟨owner, patch.validUsernameName, patch.validUsernameLabel⟩)
  | .updateAccount m => do
    let patch ← Check.given "patch" m.patch
    let configuration ← AccountConfiguration.ofWire network patch
    return .enact (.configureAccounts configuration)
  | .updateMessageFee m => do
    let patch ← Check.given "patch" m.patch
    let owner ← Address.ofField network "owner" patch.owner
    let feeAdmin ← Address.ofField network "feeAdmin" patch.feeAdmin
    return .enact (.configureMessageFees ⟨owner, feeAdmin⟩)

def decode (network : Network) (bs : Bytes) : Except Error Action :=
  match (Wire.Message.decode? bs : Option Wire.ProposalOptions) with
  | none => .error .malformedWire
  | some ⟨none⟩ => .error (.unsupported .proposalOption)
  | some ⟨some option⟩ => ofWire network option

end Action

end NameService
