import NameService.Action
import NameService.Amount.Json

/-
  The JSON forms of actions and their parts.

  An action is a tagged value: the tag `kind`, and the fields of its kind. The
  tag of an outermost action is a name; inside another tagged value it may also
  be the number of the kind.

  Where the fields of a record may stand among others, `members` writes them
  and `fields` takes them.
-/

namespace NameService

open Json

namespace Transfer

def members (t : Transfer) : List (String × Json) :=
  [("sender", .text t.sender), ("recipient", .text t.recipient), ("amount", t.amount.toJson)] ++
    Json.optional "memo" (t.memo.map .text)

def fields : FieldReader Transfer := do
  let sender ← required "sender" readText
  let recipient ← required "recipient" readText
  let amount ← required "amount" Amount.ofJson
  let memo ← optionalField "memo" readText
  return ⟨sender, recipient, amount, memo⟩

end Transfer

namespace AccountConfiguration

def members (c : AccountConfiguration) : List (String × Json) :=
  [("owner", .text c.owner), ("validDomain", .text c.validDomain), ("validName", .text c.validName),
   ("validBlockchainId", .text c.validBlockchainId),
   ("validBlockchainAddress", .text c.validBlockchainAddress),
   ("domainRenew", ofInt64 c.domainRenew)]

def fields : FieldReader AccountConfiguration := do
  let owner ← required "owner" readText
  let validDomain ← required "validDomain" readText
  let validName ← required "validName" readText
  let validBlockchainId ← required "validBlockchainId" readText
  let validBlockchainAddress ← required "validBlockchainAddress" readText
  let domainRenew ← required "domainRenew" readInt64
  return ⟨owner, validDomain, validName, validBlockchainId, validBlockchainAddress, domainRenew⟩

end AccountConfiguration

namespace Fraction

def toJson (f : Fraction) : Json :=
  .object [("numerator", ofUInt32 f.numerator), ("denominator", ofUInt32 f.denominator)]

def ofJson : Reader Fraction :=
  readRecord do
    let numerator ← required "numerator" readUInt32
    let denominator ← required "denominator" readUInt32
    return ⟨numerator, denominator⟩

end Fraction

/-! ## Actions -/

/-- Reads the power of a validator, a record of one field. -/
def readPower : Reader Int64 :=
  readRecord (required "power" readInt64)

/-- Reads the weight of an elector, a record of one field. -/
def readWeight : Reader UInt32 :=
  readRecord (required "weight" readUInt32)

namespace Measure

/-- The members of a measure, without its tag. -/
def members : Measure → List (String × Json)
  | textResolution resolution => [("resolution", .text resolution)]
  | releaseEscrow escrowId amount => [("escrowId", ofId escrowId), ("amount", amount.toJson)]
  | send transfer => transfer.members
  | setValidators updates =>
    [("validatorUpdates", ofMap (fun power => .object [("power", ofInt64 power)]) updates)]
  | updateElectionRule rule =>
    ("electionRuleId", ofId rule.electionRuleId) ::
      Json.optional "threshold" (rule.threshold.map Fraction.toJson) ++
      Json.optional "quorum" (rule.quorum.map Fraction.toJson) ++
      [("votingPeriod", ofUInt32 rule.votingPeriod)]
  | updateElectorate electorateId electors =>
    [("electorateId", ofId electorateId),
     ("diffElectors", ofMap (fun weight => .object [("weight", ofUInt32 weight)]) electors)]
  | setMessageFee path fee => [("msgPath", .text path), ("fee", fee.toJson)]
  | executeMigration id => [("id", .text id)]
  | upgradeSchema package toVersion =>
    [("pkg", .text package), ("toVersion", ofUInt32 toVersion)]
  | configureCash c =>
    [("owner", .text c.owner), ("collectorAddress", .text c.collectorAddress)] ++
      Json.optional "minimalFee" (c.minimalFee.map Amount.toJson)
  | configureTxFee c =>
    [("owner", .text c.owner), ("freeBytes", ofInt32 c.freeBytes)] ++
      Json.optional "baseFee" (c.baseFee.map Amount.toJson)
  | configureUsernames c =>
    [("owner", .text c.owner), ("validUsernameName", .text c.validUsernameName),
     ("validUsernameLabel", .text c.validUsernameLabel)]
  | configureAccounts c => c.members
  | configureMessageFees c => [("owner", .text c.owner), ("feeAdmin", .text c.feeAdmin)]

end Measure

namespace Action

/-- Takes the fields of an action of a kind; `inner` reads the members of a
batch. -/
def fields (inner : Reader Action) : Kind → FieldReader Action
  | .textResolution => do
    let resolution ← required "resolution" readText
    return enact (.textResolution resolution)
  | .batch => do
    let members ← required "messages" (readList inner)
    return batch members
  | .releaseEscrow => do
    let escrowId ← required "escrowId" readId
    let amount ← required "amount" Amount.ofJson
    return enact (.releaseEscrow escrowId amount)
  | .send => do
    let transfer ← Transfer.fields
    return enact (.send transfer)
  | .setValidators => do
    let updates ← required "validatorUpdates" (readMap readPower)
    return enact (.setValidators updates)
  | .updateElectionRule => do
    let electionRuleId ← required "electionRuleId" readId
    let threshold ← optionalField "threshold" Fraction.ofJson
    let quorum ← optionalField "quorum" Fraction.ofJson
    let votingPeriod ← required "votingPeriod" readUInt32
    return enact (.updateElectionRule ⟨electionRuleId, threshold, quorum, votingPeriod⟩)
  | .updateElectorate => do
    let electorateId ← required "electorateId" readId
    let electors ← required "diffElectors" (readMap readWeight)
    return enact (.updateElectorate electorateId electors)
  | .setMessageFee => do
    let path ← required "msgPath" readText
    let fee ← required "fee" Amount.ofJson
    return enact (.setMessageFee path fee)
  | .executeMigration => do
    let id ← required "id" readText
    return enact (.executeMigration id)
  | .upgradeSchema => do
    let package ← required "pkg" readText
    let toVersion ← required "toVersion" readUInt32
    return enact (.upgradeSchema package toVersion)
  | .configureCash => do
    let owner ← required "owner" readText
    let collectorAddress ← required "collectorAddress" readText
    let minimalFee ← optionalField "minimalFee" Amount.ofJson
    return enact (.configureCash ⟨owner, collectorAddress, minimalFee⟩)
  | .configureTxFee => do
    let owner ← required "owner" readText
    let freeBytes ← required "freeBytes" readInt32
    let baseFee ← optionalField "baseFee" Amount.ofJson
    return enact (.configureTxFee ⟨owner, freeBytes, baseFee⟩)
  | .configureUsernames => do
    let owner ← required "owner" readText
    let validUsernameName ← required "validUsernameName" readText
    let validUsernameLabel ← required "validUsernameLabel" readText
    return enact (.configureUsernames ⟨owner, validUsernameName, validUsernameLabel⟩)
  | .configureAccounts => do
    let configuration ← AccountConfiguration.fields
    return enact (.configureAccounts configuration)
  | .configureMessageFees => do
    let owner ← required "owner" readText
    let feeAdmin ← required "feeAdmin" readText
    return enact (.configureMessageFees ⟨owner, feeAdmin⟩)

/-- Reads an action from a value that nests less than `fuel` deep. -/
def read : Nat → Bool → Reader Action
  | 0, _, _ => none
  | fuel + 1, numbered, j => do
    let (tag, rest) ← tagged? "kind" j
    let kind ← readKind Kind.all Kind.name numbered tag
    rest.read (fields (read fuel true) kind)

/-- Reads an action that is named by its kind, or that may be numbered because
it is inside another tagged value. -/
def ofJson (numbered : Bool) : Reader Action := fun j =>
  read (j.depth + 1) numbered j

mutual

def toJson : Action → Json
  | enact measure => .object (("kind", .text measure.kind.name) :: measure.members)
  | batch members =>
    .object [("kind", .text Kind.batch.name), ("messages", .array (listToJson members))]

def listToJson : List Action → List Json
  | [] => []
  | a :: rest => a.toJson :: listToJson rest

end

end Action

end NameService
