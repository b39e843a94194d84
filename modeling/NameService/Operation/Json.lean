import NameService.Action.Json
import NameService.Operation

/-
  The JSON forms of operations: the members that stand beside the tag of a
  transaction, kind by kind.
-/

namespace NameService

open Json

/-! ## Parts -/

namespace Target

/-- Writes a target; the member that holds the chain has the given name. -/
def toJson (chainMember : String) (t : Target) : Json :=
  .object [(chainMember, .text t.chain), ("address", .text t.address)]

def ofJson (chainMember : String) : Reader Target :=
  readRecord do
    let chain ← required chainMember readText
    let address ← required "address" readText
    return ⟨chain, address⟩

/-- The member that holds the chain of a username's target. -/
def usernameMember : String := "chainId"

/-- The member that holds the chain of an account's target. -/
def accountMember : String := "blockchainId"

end Target

namespace Participant

def toJson (p : Participant) : Json :=
  .object [("address", .text p.address), ("weight", ofUInt32 p.weight)]

def ofJson : Reader Participant :=
  readRecord do
    let address ← required "address" readText
    let weight ← required "weight" readUInt32
    return ⟨address, weight⟩

end Participant

namespace MessageFee

def toJson (f : MessageFee) : Json :=
  .object [("msgPath", .text f.path), ("fee", f.fee.toJson)]

def ofJson : Reader MessageFee :=
  readRecord do
    let path ← required "msgPath" readText
    let fee ← required "fee" Amount.ofJson
    return ⟨path, fee⟩

end MessageFee

/-- Writes a time, a record of one field. -/
def timeToJson (seconds : Int64) : Json :=
  .object [("timestamp", ofInt64 seconds)]

def readTime : Reader Int64 :=
  readRecord (required "timestamp" readInt64)

namespace Selection

def all : List Selection := [yes, no, abstain]

def name : Selection → String
  | yes => "yes"
  | no => "no"
  | abstain => "abstain"

end Selection

namespace ContractTerms

def members (t : ContractTerms) : List (String × Json) :=
  [("participants", ofList Participant.toJson t.participants),
   ("activationThreshold", ofUInt32 t.activationThreshold),
   ("adminThreshold", ofUInt32 t.adminThreshold)]

def fields : FieldReader ContractTerms := do
  let participants ← required "participants" (readList Participant.ofJson)
  let activationThreshold ← required "activationThreshold" readUInt32
  let adminThreshold ← required "adminThreshold" readUInt32
  return ⟨participants, activationThreshold, adminThreshold⟩

end ContractTerms

/-! ## Operations -/

namespace Operation

/-- The members of an operation, without its tag. -/
def members : Operation → List (String × Json)
  | send transfer => transfer.members
  | swapOffer o =>
    [("sender", .text o.sender), ("recipient", .text o.recipient),
     ("amounts", ofList Amount.toJson o.amounts), ("hash", ofBytes o.hash),
     ("timeout", timeToJson o.timeout)] ++
      Json.optional "memo" (o.memo.map .text)
  | swapClaim swapId preimage => [("swapId", ofBytes swapId), ("preimage", ofBytes preimage)]
  | swapAbort swapId => [("swapId", ofBytes swapId)]
  | registerUsername username targets =>
    [("username", .text username),
     ("targets", ofList (Target.toJson Target.usernameMember) targets)]
  | updateUsernameTargets username targets =>
    [("username", .text username),
     ("targets", ofList (Target.toJson Target.usernameMember) targets)]
  | transferUsername username newOwner =>
    [("username", .text username), ("newOwner", .text newOwner)]
  | updateAccountConfiguration configuration =>
    [("configuration", .object configuration.members)]
  | registerDomain r =>
    [("domain", .text r.domain), ("admin", .text r.admin),
     ("hasSuperuser", .bool r.hasSuperuser)] ++
      Json.optional "broker" (r.broker.map .text) ++
      [("msgFees", ofList MessageFee.toJson r.messageFees),
       ("accountRenew", ofInt64 r.accountRenew)]
  | transferDomain domain newAdmin => [("domain", .text domain), ("newAdmin", .text newAdmin)]
  | renewDomain domain => [("domain", .text domain)]
  | deleteDomain domain => [("domain", .text domain)]
  | registerAccount r =>
    [("domain", .text r.domain), ("name", .text r.name), ("owner", .text r.owner),
     ("targets", ofList (Target.toJson Target.accountMember) r.targets)] ++
      Json.optional "broker" (r.broker.map .text)
  | transferAccount domain name newOwner =>
    [("domain", .text domain), ("name", .text name), ("newOwner", .text newOwner)]
  | replaceAccountTargets domain name newTargets =>
    [("domain", .text domain), ("name", .text name),
     ("newTargets", ofList (Target.toJson Target.accountMember) newTargets)]
  | deleteAccount domain name => [("domain", .text domain), ("name", .text name)]
  | deleteAllAccounts domain => [("domain", .text domain)]
  | renewAccount domain name => [("domain", .text domain), ("name", .text name)]
  | addAccountCertificate domain name certificate =>
    [("domain", .text domain), ("name", .text name), ("certificate", ofBytes certificate)]
  | replaceAccountMessageFees domain newMessageFees =>
    [("domain", .text domain), ("newMsgFees", ofList MessageFee.toJson newMessageFees)]
  | deleteAccountCertificate domain name certificateHash =>
    [("domain", .text domain), ("name", .text name), ("certificateHash", ofBytes certificateHash)]
  | createContract terms => terms.members
  | updateContract contractId terms => ("contractId", ofId contractId) :: terms.members
  | createEscrow e =>
    [("sender", .text e.sender), ("arbiter", .text e.arbiter), ("recipient", .text e.recipient),
     ("amounts", ofList Amount.toJson e.amounts), ("timeout", timeToJson e.timeout)] ++
      Json.optional "memo" (e.memo.map .text)
  | releaseEscrow escrowId amounts =>
    [("escrowId", ofId escrowId), ("amounts", ofList Amount.toJson amounts)]
  | returnEscrow escrowId => [("escrowId", ofId escrowId)]
  | updateEscrowParties p =>
    ("escrowId", ofId p.escrowId) ::
      Json.optional "sender" (p.sender.map .text) ++
      Json.optional "arbiter" (p.arbiter.map .text) ++
      Json.optional "recipient" (p.recipient.map .text)
  | createProposal p =>
    [("title", .text p.title), ("action", p.action.toJson), ("description", .text p.description),
     ("electionRuleId", ofId p.electionRuleId), ("startTime", ofInt64 p.startTime),
     ("author", .text p.author)]
  | vote v =>
    [("proposalId", ofId v.proposalId), ("selection", .text v.selection.name)] ++
      Json.optional "voter" (v.voter.map .text)

/-- Takes the fields of an operation of a kind. -/
def fields : Kind → FieldReader Operation
  | .send => do
    let transfer ← Transfer.fields
    return send transfer
  | .swapOffer => do
    let sender ← required "sender" readText
    let recipient ← required "recipient" readText
    let amounts ← required "amounts" (readList Amount.ofJson)
    let hash ← required "hash" readBytes
    let timeout ← required "timeout" readTime
    let memo ← optionalField "memo" readText
    return swapOffer ⟨sender, recipient, amounts, hash, timeout, memo⟩
  | .swapClaim => do
    let swapId ← required "swapId" readBytes
    let preimage ← required "preimage" readBytes
    return swapClaim swapId preimage
  | .swapAbort => do
    let swapId ← required "swapId" readBytes
    return swapAbort swapId
  | .registerUsername => do
    let username ← required "username" readText
    let targets ← required "targets" (readList (Target.ofJson Target.usernameMember))
    return registerUsername username targets
  | .updateUsernameTargets => do
    let username ← required "username" readText
    let targets ← required "targets" (readList (Target.ofJson Target.usernameMember))
    return updateUsernameTargets username targets
  | .transferUsername => do
    let username ← required "username" readText
    let newOwner ← required "newOwner" readText
    return transferUsername username newOwner
  | .updateAccountConfiguration => do
    let configuration ← required "configuration" (readRecord AccountConfiguration.fields)
    return updateAccountConfiguration configuration
  | .registerDomain => do
    let domain ← required "domain" readText
    let admin ← required "admin" readText
    let hasSuperuser ← required "hasSuperuser" readBool
    let broker ← optionalField "broker" readText
    let messageFees ← required "msgFees" (readList MessageFee.ofJson)
    let accountRenew ← required "accountRenew" readInt64
    return registerDomain ⟨domain, admin, hasSuperuser, broker, messageFees, accountRenew⟩
  | .transferDomain => do
    let domain ← required "domain" readText
    let newAdmin ← required "newAdmin" readText
    return transferDomain domain newAdmin
  | .renewDomain => do
    let domain ← required "domain" readText
    return renewDomain domain
  | .deleteDomain => do
    let domain ← required "domain" readText
    return deleteDomain domain
  | .registerAccount => do
    let domain ← required "domain" readText
    let name ← required "name" readText
    let owner ← required "owner" readText
    let targets ← required "targets" (readList (Target.ofJson Target.accountMember))
    let broker ← optionalField "broker" readText
    return registerAccount ⟨domain, name, owner, targets, broker⟩
  | .transferAccount => do
    let domain ← required "domain" readText
    let name ← required "name" readText
    let newOwner ← required "newOwner" readText
    return transferAccount domain name newOwner
  | .replaceAccountTargets => do
    let domain ← required "domain" readText
    let name ← required "name" readText
    let newTargets ← required "newTargets" (readList (Target.ofJson Target.accountMember))
    return replaceAccountTargets domain name newTargets
  | .deleteAccount => do
    let domain ← required "domain" readText
    let name ← required "name" readText
    return deleteAccount domain name
  | .deleteAllAccounts => do
    let domain ← required "domain" readText
    return deleteAllAccounts domain
  | .renewAccount => do
    let domain ← required "domain" readText
    let name ← required "name" readText
    return renewAccount domain name
  | .addAccountCertificate => do
    let domain ← required "domain" readText
    let name ← required "name" readText
    let certificate ← required "certificate" readBytes
    return addAccountCertificate domain name certificate
  | .replaceAccountMessageFees => do
    let domain ← required "domain" readText
    let newMessageFees ← required "newMsgFees" (readList MessageFee.ofJson)
    return replaceAccountMessageFees domain newMessageFees
  | .deleteAccountCertificate => do
    let domain ← required "domain" readText
    let name ← required "name" readText
    let certificateHash ← required "certificateHash" readBytes
    return deleteAccountCertificate domain name certificateHash
  | .createContract => do
    let terms ← ContractTerms.fields
    return createContract terms
  | .updateContract => do
    let contractId ← required "contractId" readId
    let terms ← ContractTerms.fields
    return updateContract contractId terms
  | .createEscrow => do
    let sender ← required "sender" readText
    let arbiter ← required "arbiter" readText
    let recipient ← required "recipient" readText
    let amounts ← required "amounts" (readList Amount.ofJson)
    let timeout ← required "timeout" readTime
    let memo ← optionalField "memo" readText
    return createEscrow ⟨sender, arbiter, recipient, amounts, timeout, memo⟩
  | .releaseEscrow => do
    let escrowId ← required "escrowId" readId
    let amounts ← required "amounts" (readList Amount.ofJson)
    return releaseEscrow escrowId amounts
  | .returnEscrow => do
    let escrowId ← required "escrowId" readId
    return returnEscrow escrowId
  | .updateEscrowParties => do
    let escrowId ← required "escrowId" readId
    let sender ← optionalField "sender" readText
    let arbiter ← optionalField "arbiter" readText
    let recipient ← optionalField "recipient" readText
    return updateEscrowParties ⟨escrowId, sender, arbiter, recipient⟩
  | .createProposal => do
    let title ← required "title" readText
    let action ← required "action" (Action.ofJson true)
    let description ← required "description" readText
    let electionRuleId ← required "electionRuleId" readId
    let startTime ← required "startTime" readInt64
    let author ← required "author" readText
    return createProposal ⟨title, action, description, electionRuleId, startTime, author⟩
  | .vote => do
    let proposalId ← required "proposalId" readId
    let selection ← required "selection" (readChoice Selection.all Selection.name isEmpty)
    let voter ← optionalField "voter" readText
    return vote ⟨proposalId, selection, voter⟩

end Operation

end NameService
