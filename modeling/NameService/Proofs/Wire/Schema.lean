import NameService.Proofs.Wire.Layout
import NameService.Wire.Proposal
import NameService.Wire.Tx

/-
  Every message type of the schema is lawful.

  An instance needs no proof of its own: the law follows from the fields, and
  that no tag occurs twice is decided. Only the three unions have to say that
  their cases cover the values. What is proved:
    1. `Tx.decode?_encode`, `ProposalOptions.decode?_encode` — a transaction and
       the action of a proposal are read back from their bytes; both stay far
       below the levels of nesting that a message has.
    2. `decode?_encode_standalone` — the same of every message type that is read
       or written by itself.
-/

namespace NameService.Wire

/-! ## Parts -/

instance : Message.Lawful Metadata where

instance : Message.Lawful Coin where

instance : Message.Lawful Target where

instance {γ : Type} [Message γ] [Message.Lawful γ] : Message.Lawful (Update γ) where
  tags_nodup := show [1, 2].Nodup by decide
  tags_fit := show ∀ t ∈ [1, 2], TagFits t by decide

instance : Message.Lawful Reference where

/-! ## Payments -/

instance : Message.Lawful Send where

instance : Message.Lawful FeeInfo where

instance : Message.Lawful CashConfiguration where

instance : Message.Lawful TxFeeConfiguration where

instance : Message.Lawful MessageFeeConfiguration where

instance : Message.Lawful SetMessageFee where

instance : Message.Lawful CreateSwap where

instance : Message.Lawful ReleaseSwap where

instance : Message.Lawful CreateEscrow where

instance : Message.Lawful ReleaseEscrow where

instance : Message.Lawful UpdateEscrowParties where

/-! ## Names -/

instance : Message.Lawful UsernameTargets where

instance : Message.Lawful TransferUsername where

instance : Message.Lawful UsernameConfiguration where

instance : Message.Lawful AccountConfiguration where

instance : Message.Lawful MessageFee where

instance : Message.Lawful RegisterDomain where

instance : Message.Lawful ReplaceMessageFees where

instance : Message.Lawful TransferDomain where

instance : Message.Lawful DomainReference where

instance : Message.Lawful RegisterAccount where

instance : Message.Lawful TransferAccount where

instance : Message.Lawful ReplaceTargets where

instance : Message.Lawful AccountReference where

instance : Message.Lawful AddCertificate where

instance : Message.Lawful DeleteCertificate where

/-! ## Governance -/

instance : Message.Lawful Participant where

instance : Message.Lawful CreateContract where

instance : Message.Lawful UpdateContract where

instance : Message.Lawful CreateProposal where

instance : Message.Lawful Vote where

instance : Message.Lawful TextResolution where

instance : Message.Lawful Elector where

instance : Message.Lawful UpdateElectorate where

instance : Message.Lawful Fraction where

instance : Message.Lawful UpdateElectionRule where

instance : Message.Lawful ValidatorKey where

instance : Message.Lawful ValidatorUpdate where

instance : Message.Lawful ApplyDiff where

instance : Message.Lawful UpgradeSchema where

instance : Message.Lawful ExecuteMigration where

/-! ## Actions -/

instance : Case.Cover BatchMember.cases where
  depth := 2
  tags_nodup := by decide
  exists_case v := by
    cases v <;> exact ⟨_, rfl, Case.message_reads rfl (by decide)⟩

instance : Message.Lawful BatchPlace where

instance : Message.Lawful Batch where

instance : Case.Cover ProposalOption.cases where
  depth := 4
  tags_nodup := by decide
  exists_case v := by
    cases v <;> exact ⟨_, rfl, Case.message_reads rfl (by decide)⟩

instance : Message.Lawful ProposalOptions where

/-! ## Envelope -/

instance : Message.Lawful PublicKey where

instance : Message.Lawful SignatureBytes where

instance : Message.Lawful Signature where

instance : Case.Cover Body.cases where
  depth := 3
  tags_nodup := by decide
  exists_case v := by
    cases v <;> exact ⟨_, rfl, Case.message_reads rfl (by decide)⟩

instance : Message.Lawful Tx where

/-- A transaction on the wire is read back from its bytes. -/
theorem Tx.decode?_encode (m : Tx) (h : (Message.encode m).length < 2 ^ 64) :
    Message.decode? (Message.encode m) = some m :=
  Message.decode?_encode m (by decide) h

theorem Tx.encode_inj {m n : Tx} (hlength : (Message.encode m).length < 2 ^ 64)
    (h : Message.encode m = Message.encode n) : m = n :=
  Message.encode_inj (by decide) hlength h

/-- The message of a proposal's action is read back from its bytes. -/
theorem ProposalOptions.decode?_encode (m : ProposalOptions)
    (h : (Message.encode m).length < 2 ^ 64) : Message.decode? (Message.encode m) = some m :=
  Message.decode?_encode m (by decide) h

theorem ProposalOptions.encode_inj {m n : ProposalOptions}
    (hlength : (Message.encode m).length < 2 ^ 64) (h : Message.encode m = Message.encode n) :
    m = n :=
  Message.encode_inj (by decide) hlength h

/-- A value of any message type that is read or written by itself is read back from its
bytes, whatever it holds: a transaction, the action of a proposal, a coin, a signature. -/
theorem decode?_encode_standalone :
    (∀ m : Tx, (Message.encode m).length < 2 ^ 63 →
      Message.decode? (Message.encode m) = some m) ∧
    (∀ m : ProposalOptions, (Message.encode m).length < 2 ^ 63 →
      Message.decode? (Message.encode m) = some m) ∧
    (∀ m : Coin, (Message.encode m).length < 2 ^ 63 →
      Message.decode? (Message.encode m) = some m) ∧
    ∀ m : Signature, (Message.encode m).length < 2 ^ 63 →
      Message.decode? (Message.encode m) = some m := by
  refine ⟨fun m h => Tx.decode?_encode m (by omega),
    fun m h => ProposalOptions.decode?_encode m (by omega), ?_, ?_⟩
  · exact fun m h => Message.decode?_encode m (by decide) (by omega)
  · exact fun m h => Message.decode?_encode m (by decide) (by omega)

/-- Negative integers, empty messages that are present, empty elements of lists, an empty
block in a union, and places of a batch with and without a message. -/
theorem decode?_encode_standalone_empty_parts :
    ∃ (tx : Tx) (options : ProposalOptions) (coin : Coin) (signature : Signature),
      tx = ⟨some ⟨some ⟨-1⟩, [], some coin⟩, [signature, ⟨0, none, none⟩], [[], [0]],
        some (.vote ⟨some ⟨0⟩, [], [], -7⟩)⟩ ∧
      options = ⟨some (.batch ⟨[⟨none⟩, ⟨some (.send ⟨none, [], [], none, "", []⟩)⟩]⟩)⟩ ∧
      coin = ⟨-1, 0, "\u00e9"⟩ ∧ signature = ⟨-1, some ⟨none⟩, some ⟨some []⟩⟩ ∧
      ((Message.encode tx).length < 2 ^ 63 ∧ Message.decode? (Message.encode tx) = some tx) ∧
      ((Message.encode options).length < 2 ^ 63 ∧
        Message.decode? (Message.encode options) = some options) ∧
      ((Message.encode coin).length < 2 ^ 63 ∧
        Message.decode? (Message.encode coin) = some coin) ∧
      ((Message.encode signature).length < 2 ^ 63 ∧
        Message.decode? (Message.encode signature) = some signature) := by
  obtain ⟨htx, hoptions, hcoin, hsignature⟩ := decode?_encode_standalone
  refine ⟨_, _, _, _, rfl, rfl, rfl, rfl, ⟨?tx, htx _ ?tx⟩, ⟨?options, hoptions _ ?options⟩,
    ⟨?coin, hcoin _ ?coin⟩, ⟨?signature, hsignature _ ?signature⟩⟩
  all_goals decide +kernel

end NameService.Wire
