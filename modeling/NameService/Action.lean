import NameService.Account
import NameService.SortedMap
import NameService.Transfer

/-
  Actions of governance proposals: what is executed when a proposal is
  accepted.

  An action is one measure, or a batch of actions. A batch may be built from
  any actions; that the chain only takes transfers in it is checked when it is
  written.
-/

namespace NameService

/-- A fraction of the votes. -/
structure Fraction where
  numerator : UInt32
  denominator : UInt32
  deriving DecidableEq, Repr

structure ElectionRuleUpdate where
  electionRuleId : UInt64
  threshold : Option Fraction
  quorum : Option Fraction
  /-- In seconds. -/
  votingPeriod : UInt32
  deriving DecidableEq, Repr

/-- The configuration of transfers. -/
structure CashConfiguration where
  owner : String
  collectorAddress : String
  minimalFee : Option Amount
  deriving DecidableEq, Repr

/-- The configuration of the fee for the size of a transaction. -/
structure TxFeeConfiguration where
  owner : String
  freeBytes : Int32
  baseFee : Option Amount
  deriving DecidableEq, Repr

structure UsernameConfiguration where
  owner : String
  validUsernameName : String
  validUsernameLabel : String
  deriving DecidableEq, Repr

/-- The configuration of the fees for kinds of messages. -/
structure MessageFeeConfiguration where
  owner : String
  feeAdmin : String
  deriving DecidableEq, Repr

inductive Measure where
  | textResolution (resolution : String)
  | releaseEscrow (escrowId : UInt64) (amount : Amount)
  | send (transfer : Transfer)
  /-- New powers of validators, by their names. -/
  | setValidators (updates : SortedMap Int64)
  | updateElectionRule (rule : ElectionRuleUpdate)
  /-- New weights of electors, by their addresses. -/
  | updateElectorate (electorateId : UInt64) (electors : SortedMap UInt32)
  | setMessageFee (path : String) (fee : Amount)
  | executeMigration (id : String)
  | upgradeSchema (package : String) (toVersion : UInt32)
  | configureCash (configuration : CashConfiguration)
  | configureTxFee (configuration : TxFeeConfiguration)
  | configureUsernames (configuration : UsernameConfiguration)
  | configureAccounts (configuration : AccountConfiguration)
  | configureMessageFees (configuration : MessageFeeConfiguration)
  deriving DecidableEq, Repr

/-- What a proposal executes. -/
inductive Action where
  | enact (measure : Measure)
  | batch (members : List Action)
  deriving Repr

namespace Action

/-! ## Equality -/

mutual

def decide : (a b : Action) → Decidable (a = b)
  | .enact m, .enact n =>
    if h : m = n then isTrue (by rw [h]) else isFalse (by simpa using h)
  | .batch as, .batch bs =>
    match decideList as bs with
    | isTrue h => isTrue (by rw [h])
    | isFalse h => isFalse (by simpa using h)
  | .enact _, .batch _ => isFalse (by simp)
  | .batch _, .enact _ => isFalse (by simp)

def decideList : (as bs : List Action) → Decidable (as = bs)
  | [], [] => isTrue rfl
  | a :: as, b :: bs =>
    match decide a b, decideList as bs with
    | isTrue h, isTrue hs => isTrue (by rw [h, hs])
    | isFalse h, _ => isFalse (by simp [h])
    | _, isFalse hs => isFalse (by simp [hs])
  | [], _ :: _ => isFalse (by simp)
  | _ :: _, [] => isFalse (by simp)

end

instance : DecidableEq Action := decide

/-! ## Kinds -/

inductive Kind where
  | textResolution
  | batch
  | releaseEscrow
  | send
  | setValidators
  | updateElectionRule
  | updateElectorate
  | setMessageFee
  | executeMigration
  | upgradeSchema
  | configureCash
  | configureTxFee
  | configureUsernames
  | configureAccounts
  | configureMessageFees
  deriving DecidableEq, Repr

namespace Kind

/-- All kinds, in the order in which they are numbered. -/
def all : List Kind :=
  [textResolution, batch, releaseEscrow, send, setValidators, updateElectionRule,
   updateElectorate, setMessageFee, executeMigration, upgradeSchema, configureCash,
   configureTxFee, configureUsernames, configureAccounts, configureMessageFees]

def name : Kind → String
  | textResolution => "gov_create_text_resolution"
  | batch => "execute_proposal_batch"
  | releaseEscrow => "escrow_release"
  | send => "cash_send"
  | setValidators => "validators_apply_diff"
  | updateElectionRule => "gov_update_election_rule"
  | updateElectorate => "gov_update_electorate"
  | setMessageFee => "msgfee_set_msg_fee"
  | executeMigration => "datamigration_execute_migration"
  | upgradeSchema => "migration_upgrade_schema"
  | configureCash => "cash_update_configuration"
  | configureTxFee => "txfee_update_configuration"
  | configureUsernames => "username_update_configuration"
  | configureAccounts => "account_update_configuration"
  | configureMessageFees => "msgfee_update_configuration"

end Kind

end Action

def Measure.kind : Measure → Action.Kind
  | .textResolution _ => .textResolution
  | .releaseEscrow _ _ => .releaseEscrow
  | .send _ => .send
  | .setValidators _ => .setValidators
  | .updateElectionRule _ => .updateElectionRule
  | .updateElectorate _ _ => .updateElectorate
  | .setMessageFee _ _ => .setMessageFee
  | .executeMigration _ => .executeMigration
  | .upgradeSchema _ _ => .upgradeSchema
  | .configureCash _ => .configureCash
  | .configureTxFee _ => .configureTxFee
  | .configureUsernames _ => .configureUsernames
  | .configureAccounts _ => .configureAccounts
  | .configureMessageFees _ => .configureMessageFees

def Action.kind : Action → Kind
  | .enact measure => measure.kind
  | .batch _ => .batch

end NameService
