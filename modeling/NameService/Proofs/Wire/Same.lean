import NameService.Proofs.Reading

/-
  When two messages say the same.

  Headers say nothing about what a message does, and no reader looks at the
  reference of a transfer; `bare` is a message without both. Electors and validators
  are listed in any order, and of several entries for one of them the last one counts.
  The action of a proposal stands as bytes in it, which are compared as the message
  that they hold.

  Two kinds of messages can hold more than an action has room for: a release of
  several coins, and a validator with a key of another scheme than ed25519. `Plain`
  sets these apart.
-/

namespace NameService.Wire

open SortedMap (lastOf)

/-! ## Without headers -/

def Send.bare (m : Send) : Send :=
  { m with metadata := none, reference := [] }

/-- The change of a configuration, without the two headers. -/
def Update.bare {γ : Type} (headless : γ → γ) (m : Update γ) : Update γ :=
  ⟨none, m.patch.map headless⟩

def BatchMember.bare : BatchMember → BatchMember
  | .send m => .send m.bare
  | .releaseEscrow m => .releaseEscrow { m with metadata := none }

def BatchPlace.bare (p : BatchPlace) : BatchPlace :=
  ⟨p.member.map BatchMember.bare⟩

/-- An option of a proposal without headers and references, at every depth. -/
def ProposalOption.bare : ProposalOption → ProposalOption
  | .send m => .send m.bare
  | .releaseEscrow m => .releaseEscrow { m with metadata := none }
  | .applyDiff m => .applyDiff { m with metadata := none }
  | .batch m => .batch ⟨m.messages.map BatchPlace.bare⟩
  | .upgradeSchema m => .upgradeSchema { m with metadata := none }
  | .updateElectorate m => .updateElectorate { m with metadata := none }
  | .updateElectionRule m => .updateElectionRule { m with metadata := none }
  | .textResolution m => .textResolution { m with metadata := none }
  | .setMessageFee m => .setMessageFee { m with metadata := none }
  | .executeMigration m => .executeMigration { m with metadata := none }
  | .updateCash m => .updateCash (m.bare fun c => { c with metadata := none })
  | .updateTxFee m => .updateTxFee (m.bare fun c => { c with metadata := none })
  | .updateUsername m => .updateUsername (m.bare fun c => { c with metadata := none })
  | .updateAccount m => .updateAccount (m.bare fun c => { c with metadata := none })
  | .updateMessageFee m => .updateMessageFee (m.bare fun c => { c with metadata := none })

/-- The message of a transaction without headers and references, apart from those in
the bytes of a proposal's action. -/
def Body.bare : Body → Body
  | .send m => .send m.bare
  | .createEscrow m => .createEscrow { m with metadata := none }
  | .releaseEscrow m => .releaseEscrow { m with metadata := none }
  | .returnEscrow m => .returnEscrow { m with metadata := none }
  | .updateEscrowParties m => .updateEscrowParties { m with metadata := none }
  | .createContract m => .createContract { m with metadata := none }
  | .updateContract m => .updateContract { m with metadata := none }
  | .registerUsername m => .registerUsername { m with metadata := none }
  | .transferUsername m => .transferUsername { m with metadata := none }
  | .changeUsernameTargets m => .changeUsernameTargets { m with metadata := none }
  | .createSwap m => .createSwap { m with metadata := none }
  | .releaseSwap m => .releaseSwap { m with metadata := none }
  | .returnSwap m => .returnSwap { m with metadata := none }
  | .createProposal m => .createProposal { m with metadata := none }
  | .deleteProposal m => .deleteProposal { m with metadata := none }
  | .vote m => .vote { m with metadata := none }
  | .tally m => .tally { m with metadata := none }
  | .updateAccountConfiguration m =>
    .updateAccountConfiguration (m.bare fun c => { c with metadata := none })
  | .registerDomain m => .registerDomain { m with metadata := none }
  | .replaceMessageFees m => .replaceMessageFees { m with metadata := none }
  | .transferDomain m => .transferDomain { m with metadata := none }
  | .renewDomain m => .renewDomain { m with metadata := none }
  | .deleteDomain m => .deleteDomain { m with metadata := none }
  | .registerAccount m => .registerAccount { m with metadata := none }
  | .transferAccount m => .transferAccount { m with metadata := none }
  | .replaceTargets m => .replaceTargets { m with metadata := none }
  | .deleteAccount m => .deleteAccount { m with metadata := none }
  | .flushDomain m => .flushDomain { m with metadata := none }
  | .renewAccount m => .renewAccount { m with metadata := none }
  | .addCertificate m => .addCertificate { m with metadata := none }
  | .deleteCertificate m => .deleteCertificate { m with metadata := none }

/-! ## Same contents -/

/-- Two options say the same: they are equal without headers and references, or list
the same changes of validators or electors. -/
inductive ProposalOption.Same : ProposalOption → ProposalOption → Prop
  | validators {m n : ApplyDiff}
    (h : ∀ key, lastOf (·.publicKey) key m.validatorUpdates =
      lastOf (·.publicKey) key n.validatorUpdates) : Same (.applyDiff m) (.applyDiff n)
  | electors {m n : UpdateElectorate} (hid : m.electorateId = n.electorateId)
    (h : ∀ address, lastOf (·.address) address m.diffElectors =
      lastOf (·.address) address n.diffElectors) : Same (.updateElectorate m) (.updateElectorate n)
  | bare {v w : ProposalOption} (h : v.bare = w.bare) : Same v w

/-- Two messages of transactions say the same: they are equal without headers and
references, or are proposals that are equal up to options that say the same. -/
inductive Body.Same : Body → Body → Prop
  | proposal {m n : CreateProposal} {v w : ProposalOption}
    (hv : Message.decode? m.rawOption = some (⟨some v⟩ : ProposalOptions))
    (hw : Message.decode? n.rawOption = some (⟨some w⟩ : ProposalOptions)) (h : v.Same w)
    (hrest : { m with metadata := none, rawOption := [] } =
      { n with metadata := none, rawOption := [] }) :
    Same (.createProposal m) (.createProposal n)
  | bare {b c : Body} (h : b.bare = c.bare) : Same b c

/-! ## What an action has room for -/

/-- A release is of one coin, and validators have keys of the scheme ed25519. -/
def ProposalOption.Plain : ProposalOption → Prop
  | .releaseEscrow m => m.amount.length = 1
  | .applyDiff m => ∀ u ∈ m.validatorUpdates, ∀ key ∈ u.publicKey, key.type = "ed25519"
  | _ => True

/-- The option in a proposal, if there is one, is plain. -/
def Body.Plain : Body → Prop
  | .createProposal m => ∀ w, Message.decode? m.rawOption = some (⟨some w⟩ : ProposalOptions) →
    w.Plain
  | _ => True

/-! ## Order -/

/-- Validators and electors are listed in the order of their names and addresses, each
of them once. -/
def ProposalOption.InKeyOrder (network : Network) : ProposalOption → Prop
  | .applyDiff m =>
    (m.validatorUpdates.map Validator.entry).Pairwise fun a b => a.1 < b.1
  | .updateElectorate m =>
    (m.diffElectors.map (Elector.entry network)).Pairwise fun a b => a.1 < b.1
  | _ => True

def Body.InKeyOrder (network : Network) : Body → Prop
  | .createProposal m => ∀ w, Message.decode? m.rawOption = some (⟨some w⟩ : ProposalOptions) →
    w.InKeyOrder network
  | _ => True

end NameService.Wire
