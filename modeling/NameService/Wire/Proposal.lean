import NameService.Wire.Governance
import NameService.Wire.Name
import NameService.Wire.Payment

/-
  The action of a proposal: one of fifteen options, of which one is a batch of
  further messages.
-/

namespace NameService.Wire

inductive BatchMember where
  | send (m : Send)
  | releaseEscrow (m : ReleaseEscrow)
  deriving DecidableEq, Repr

def BatchMember.cases : List (Case BatchMember) := [
  .message 51 .send fun | .send m => some m | _ => none,
  .message 53 .releaseEscrow fun | .releaseEscrow m => some m | _ => none]

/-- A place in a batch, which may be left empty. -/
structure BatchPlace where
  member : Option BatchMember
  deriving DecidableEq, Repr

instance : Message BatchPlace where
  Row := Option BatchMember × Unit
  layout := .field (.union BatchMember.cases) .done
  toRow m := (m.member, ())
  ofRow := fun (member, ()) => ⟨member⟩

/-- Messages that are executed together. -/
structure Batch where
  messages : List BatchPlace
  deriving DecidableEq, Repr

instance : Message Batch where
  Row := List BatchPlace × Unit
  layout := .field (.messages 1) .done
  toRow m := (m.messages, ())
  ofRow := fun (messages, ()) => ⟨messages⟩

/-- What a proposal does when it is accepted. -/
inductive ProposalOption where
  | send (m : Send)
  | releaseEscrow (m : ReleaseEscrow)
  | applyDiff (m : ApplyDiff)
  | batch (m : Batch)
  | upgradeSchema (m : UpgradeSchema)
  | updateElectorate (m : UpdateElectorate)
  | updateElectionRule (m : UpdateElectionRule)
  | textResolution (m : TextResolution)
  | setMessageFee (m : SetMessageFee)
  | executeMigration (m : ExecuteMigration)
  | updateCash (m : Update CashConfiguration)
  | updateTxFee (m : Update TxFeeConfiguration)
  | updateUsername (m : Update UsernameConfiguration)
  | updateAccount (m : Update AccountConfiguration)
  | updateMessageFee (m : Update MessageFeeConfiguration)
  deriving DecidableEq, Repr

def ProposalOption.cases : List (Case ProposalOption) := [
  .message 51 .send fun | .send m => some m | _ => none,
  .message 53 .releaseEscrow fun | .releaseEscrow m => some m | _ => none,
  .message 58 .applyDiff fun | .applyDiff m => some m | _ => none,
  .message 60 .batch fun | .batch m => some m | _ => none,
  .message 69 .upgradeSchema fun | .upgradeSchema m => some m | _ => none,
  .message 77 .updateElectorate fun | .updateElectorate m => some m | _ => none,
  .message 78 .updateElectionRule fun | .updateElectionRule m => some m | _ => none,
  .message 79 .textResolution fun | .textResolution m => some m | _ => none,
  .message 80 .setMessageFee fun | .setMessageFee m => some m | _ => none,
  .message 81 .executeMigration fun | .executeMigration m => some m | _ => none,
  .message 82 .updateCash fun | .updateCash m => some m | _ => none,
  .message 83 .updateTxFee fun | .updateTxFee m => some m | _ => none,
  .message 84 .updateUsername fun | .updateUsername m => some m | _ => none,
  .message 85 .updateAccount fun | .updateAccount m => some m | _ => none,
  .message 86 .updateMessageFee fun | .updateMessageFee m => some m | _ => none]

/-- The message that a proposal holds as bytes. -/
structure ProposalOptions where
  option : Option ProposalOption
  deriving DecidableEq, Repr

instance : Message ProposalOptions where
  Row := Option ProposalOption × Unit
  layout := .field (.union ProposalOption.cases) .done
  toRow m := (m.option, ())
  ofRow := fun (option, ()) => ⟨option⟩

end NameService.Wire
