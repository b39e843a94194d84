import NameService.Action
import NameService.Participant

/-
  Operations: what a transaction does, in 29 kinds.

  An operation holds what a wallet hands over, unchecked: addresses and
  quantities as texts, byte strings of any length.
-/

namespace NameService

structure SwapOffer where
  sender : String
  recipient : String
  amounts : List Amount
  hash : Bytes
  /-- In seconds of UNIX time. -/
  timeout : Int64
  memo : Option String
  deriving DecidableEq, Repr

structure DomainRegistration where
  domain : String
  admin : String
  hasSuperuser : Bool
  broker : Option String
  messageFees : List MessageFee
  /-- The renewal period of accounts, in seconds. -/
  accountRenew : Int64
  deriving DecidableEq, Repr

structure AccountRegistration where
  domain : String
  name : String
  owner : String
  targets : List Target
  broker : Option String
  deriving DecidableEq, Repr

/-- The terms of a multisignature contract. -/
structure ContractTerms where
  participants : List Participant
  activationThreshold : UInt32
  adminThreshold : UInt32
  deriving DecidableEq, Repr

structure EscrowCreation where
  sender : String
  arbiter : String
  recipient : String
  amounts : List Amount
  /-- In seconds of UNIX time. -/
  timeout : Int64
  memo : Option String
  deriving DecidableEq, Repr

/-- New parties of an escrow. -/
structure EscrowParties where
  escrowId : UInt64
  sender : Option String
  arbiter : Option String
  recipient : Option String
  deriving DecidableEq, Repr

structure Proposal where
  title : String
  /-- What is executed when the proposal is accepted. -/
  action : Action
  description : String
  electionRuleId : UInt64
  /-- In seconds of UNIX time. -/
  startTime : Int64
  author : String
  deriving DecidableEq, Repr

inductive Selection where
  | yes
  | no
  | abstain
  deriving DecidableEq, Repr

structure Vote where
  proposalId : UInt64
  selection : Selection
  /-- If absent, the chain takes the main signer. -/
  voter : Option String
  deriving DecidableEq, Repr

inductive Operation where
  | send (transfer : Transfer)
  | swapOffer (offer : SwapOffer)
  | swapClaim (swapId preimage : Bytes)
  | swapAbort (swapId : Bytes)
  | registerUsername (username : String) (targets : List Target)
  | updateUsernameTargets (username : String) (targets : List Target)
  | transferUsername (username newOwner : String)
  | updateAccountConfiguration (configuration : AccountConfiguration)
  | registerDomain (registration : DomainRegistration)
  | transferDomain (domain newAdmin : String)
  | renewDomain (domain : String)
  | deleteDomain (domain : String)
  | registerAccount (registration : AccountRegistration)
  | transferAccount (domain name newOwner : String)
  | replaceAccountTargets (domain name : String) (newTargets : List Target)
  | deleteAccount (domain name : String)
  | deleteAllAccounts (domain : String)
  | renewAccount (domain name : String)
  | addAccountCertificate (domain name : String) (certificate : Bytes)
  | replaceAccountMessageFees (domain : String) (newMessageFees : List MessageFee)
  | deleteAccountCertificate (domain name : String) (certificateHash : Bytes)
  | createContract (terms : ContractTerms)
  | updateContract (contractId : UInt64) (terms : ContractTerms)
  | createEscrow (escrow : EscrowCreation)
  | releaseEscrow (escrowId : UInt64) (amounts : List Amount)
  | returnEscrow (escrowId : UInt64)
  | updateEscrowParties (parties : EscrowParties)
  | createProposal (proposal : Proposal)
  | vote (vote : Vote)
  deriving DecidableEq, Repr

namespace Operation

inductive Kind where
  | send
  | swapOffer
  | swapClaim
  | swapAbort
  | registerUsername
  | updateUsernameTargets
  | transferUsername
  | updateAccountConfiguration
  | registerDomain
  | transferDomain
  | renewDomain
  | deleteDomain
  | registerAccount
  | transferAccount
  | replaceAccountTargets
  | deleteAccount
  | deleteAllAccounts
  | renewAccount
  | addAccountCertificate
  | replaceAccountMessageFees
  | deleteAccountCertificate
  | createContract
  | updateContract
  | createEscrow
  | releaseEscrow
  | returnEscrow
  | updateEscrowParties
  | createProposal
  | vote
  deriving DecidableEq, Repr

namespace Kind

/-- All kinds, in the order in which they are numbered. -/
def all : List Kind :=
  [send, swapOffer, swapClaim, swapAbort, registerUsername, updateUsernameTargets,
   transferUsername, updateAccountConfiguration, registerDomain, transferDomain, renewDomain,
   deleteDomain, registerAccount, transferAccount, replaceAccountTargets, deleteAccount,
   deleteAllAccounts, renewAccount, addAccountCertificate, replaceAccountMessageFees,
   deleteAccountCertificate, createContract, updateContract, createEscrow, releaseEscrow,
   returnEscrow, updateEscrowParties, createProposal, vote]

def name : Kind → String
  | send => "bcp/send"
  | swapOffer => "bcp/swap_offer"
  | swapClaim => "bcp/swap_claim"
  | swapAbort => "bcp/swap_abort"
  | registerUsername => "bns/register_username"
  | updateUsernameTargets => "bns/update_targets_of_username"
  | transferUsername => "bns/transfer_username"
  | updateAccountConfiguration => "bns/update_account_configuration"
  | registerDomain => "bns/register_domain"
  | transferDomain => "bns/transfer_domain"
  | renewDomain => "bns/renew_domain"
  | deleteDomain => "bns/delete_domain"
  | registerAccount => "bns/register_account"
  | transferAccount => "bns/transfer_account"
  | replaceAccountTargets => "bns/replace_account_targets"
  | deleteAccount => "bns/delete_account"
  | deleteAllAccounts => "bns/delete_all_accounts"
  | renewAccount => "bns/renew_account"
  | addAccountCertificate => "bns/add_account_certificate"
  | replaceAccountMessageFees => "bns/replace_account_msg_fees"
  | deleteAccountCertificate => "bns/delete_account_certificate"
  | createContract => "bns/create_multisignature_contract"
  | updateContract => "bns/update_multisignature_contract"
  | createEscrow => "bns/create_escrow"
  | releaseEscrow => "bns/release_escrow"
  | returnEscrow => "bns/return_escrow"
  | updateEscrowParties => "bns/update_escrow_parties"
  | createProposal => "bns/create_proposal"
  | vote => "bns/vote"

def ofName? (name : String) : Option Kind :=
  all.find? fun k => k.name == name

end Kind

def kind : Operation → Kind
  | send _ => .send
  | swapOffer _ => .swapOffer
  | swapClaim _ _ => .swapClaim
  | swapAbort _ => .swapAbort
  | registerUsername _ _ => .registerUsername
  | updateUsernameTargets _ _ => .updateUsernameTargets
  | transferUsername _ _ => .transferUsername
  | updateAccountConfiguration _ => .updateAccountConfiguration
  | registerDomain _ => .registerDomain
  | transferDomain _ _ => .transferDomain
  | renewDomain _ => .renewDomain
  | deleteDomain _ => .deleteDomain
  | registerAccount _ => .registerAccount
  | transferAccount _ _ _ => .transferAccount
  | replaceAccountTargets _ _ _ => .replaceAccountTargets
  | deleteAccount _ _ => .deleteAccount
  | deleteAllAccounts _ => .deleteAllAccounts
  | renewAccount _ _ => .renewAccount
  | addAccountCertificate _ _ _ => .addAccountCertificate
  | replaceAccountMessageFees _ _ => .replaceAccountMessageFees
  | deleteAccountCertificate _ _ _ => .deleteAccountCertificate
  | createContract _ => .createContract
  | updateContract _ _ => .updateContract
  | createEscrow _ => .createEscrow
  | releaseEscrow _ _ => .releaseEscrow
  | returnEscrow _ => .returnEscrow
  | updateEscrowParties _ => .updateEscrowParties
  | createProposal _ => .createProposal
  | vote _ => .vote

end Operation

end NameService
