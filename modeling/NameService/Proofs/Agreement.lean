import NameService.Proofs.Result
import NameService.Proofs.Wire.Schema
import NameService.Transaction.Envelope

/-
  The same message in a transaction and in a proposal.

  A transfer, the configuration of accounts and the release of an escrow can be made by
  a transaction or by a proposal, a transfer also by a batch that a proposal makes. The
  two sides have the wire message in common and not the functions that write and read it.
  What is proved:
    1. `Measure.transferToWire_eq` and `Action.transferOfWire_eq` — a transfer is written
       and read in a proposal as in a transaction; `Measure.toWire_configureAccounts` and
       `Action.ofWire_updateAccount` say the same of the configuration of accounts.
    2. `Action.same_as_operation` — whatever both sides can make is written and read alike:
       they give the same message or value, or fail with the same error.
-/

namespace NameService

open Result

variable {network : Network}

/-! ## Single functions -/

@[simp] theorem Measure.transferToWire_eq (t : Transfer) :
    Measure.transferToWire network t = t.toWire network := rfl

/-- A memo that is filtered out is one that is decoded as none. -/
theorem Memo.filter_eq_decode (text : String) :
    (some text).filter (· ≠ "") = Memo.decode text := by
  by_cases hempty : text = ""
  · simp [hempty, Memo.decode]
  · simp [hempty, Memo.decode]

@[simp] theorem Action.transferOfWire_eq (m : Wire.Send) :
    Action.transferOfWire network m = Transfer.ofWire network m := by
  simp only [Action.transferOfWire, Memo.filter_eq_decode]
  rfl

theorem Measure.toWire_configureAccounts (c : AccountConfiguration) :
    (Measure.configureAccounts c).toWire network = do
      let m ← c.toUpdate network
      return .updateAccount m := by
  rw [Measure.toWire, AccountConfiguration.toUpdate, bind_assoc]
  rfl

theorem Action.ofWire_updateAccount (m : Wire.Update Wire.AccountConfiguration) :
    Action.ofWire network (.updateAccount m) = do
      let c ← AccountConfiguration.ofUpdate network m
      return .enact (.configureAccounts c) := by
  rw [Action.ofWire, AccountConfiguration.ofUpdate, bind_assoc]

/-! ## Whole messages -/

/-- An operation and an action are written alike: `result` is the one message that both
are made of, or the one error with which both fail. -/
structure Action.WrittenAs {β : Type} (network : Network) (operation : Operation)
    (action : Action) (toBody : β → Wire.Body) (toOption : β → Wire.ProposalOption)
    (result : Except Error β) : Prop where
  operation : ∀ strict, operation.toWire network strict = result.map toBody
  action : action.encode network = result.map fun m =>
    Wire.Message.encode (⟨some (toOption m)⟩ : Wire.ProposalOptions)

/-- A message is read alike in a transaction and from the bytes of an action: `result` is
the one value that both are read as, or the one error with which both fail. -/
structure Action.ReadAs {α : Type} (network : Network) (body : Wire.Body)
    (option : Wire.ProposalOption) (toOperation : α → Operation) (toAction : α → Action)
    (result : Except Error α) : Prop where
  operation : ∀ tx : Wire.Tx, tx.body = some body →
    Transaction.operationOfWire network tx = result.map toOperation
  action : ∀ bs, Wire.Message.decode? bs = some (⟨some option⟩ : Wire.ProposalOptions) →
    Action.decode network bs = result.map toAction

/-- At any place of a batch a transfer is written as `result`. The members in front of it
fail before it does, those behind it after it. -/
def Transfer.WrittenInBatchAs (network : Network) (t : Transfer)
    (result : Except Error Wire.Send) : Prop :=
  ∀ before after, Action.encode network (.batch (before ++ .enact (.send t) :: after)) = do
    let front ← before.mapM (Action.memberToWire network)
    let m ← result
    let back ← after.mapM (Action.memberToWire network)
    return Wire.Message.encode
      (⟨some (.batch ⟨front ++ ⟨some (.send m)⟩ :: back⟩)⟩ : Wire.ProposalOptions)

/-- At any place of a batch the message of a transfer is read as `result`. -/
def Transfer.ReadInBatchAs (network : Network) (m : Wire.Send)
    (result : Except Error Transfer) : Prop :=
  ∀ bs before after,
    Wire.Message.decode? bs =
      some (⟨some (.batch ⟨before ++ ⟨some (.send m)⟩ :: after⟩)⟩ : Wire.ProposalOptions) →
    Action.decode network bs = do
      let front ← before.mapM (Action.memberOfWire network)
      let t ← result
      let back ← after.mapM (Action.memberOfWire network)
      return .batch (front ++ .enact (.send t) :: back)

theorem Transfer.writtenInBatchAs (t : Transfer) :
    t.WrittenInBatchAs network (t.toWire network) := by
  intro before after
  have hmember : Action.memberToWire network (.enact (.send t)) = do
      let m ← t.toWire network
      return ⟨some (.send m)⟩ := rfl
  simp only [Action.encode, Action.toWire, List.mapM_append, List.mapM_cons, hmember, bind_assoc,
    pure_bind]

theorem Transfer.readInBatchAs (m : Wire.Send) :
    Transfer.ReadInBatchAs network m (Transfer.ofWire network m) := by
  intro bs before after hbs
  have hmember : Action.memberOfWire network ⟨some (.send m)⟩ = do
      let t ← Transfer.ofWire network m
      return .enact (.send t) := by
    rw [Action.memberOfWire, Action.transferOfWire_eq]
  rw [Action.decode, hbs]
  simp only [Action.ofWire, List.mapM_append, List.mapM_cons, hmember, bind_assoc, pure_bind]

namespace Action

/-- What both sides write is one message in two places. -/
theorem writtenAs {β : Type} {operation : Operation} {action : Action} {toBody : β → Wire.Body}
    {toOption : β → Wire.ProposalOption} {result : Except Error β}
    (hoperation : ∀ strict, operation.toWire network strict = do
      let m ← result
      return toBody m)
    (haction : action.toWire network = do
      let m ← result
      return toOption m) :
    WrittenAs network operation action toBody toOption result where
  operation strict := by
    rw [hoperation]
    cases result <;> rfl
  action := by
    rw [encode, haction]
    cases result <;> rfl

/-- What both sides read is one value under two names. -/
theorem readAs {α : Type} {body : Wire.Body} {option : Wire.ProposalOption}
    {toOperation : α → Operation} {toAction : α → Action} {result : Except Error α}
    (hoperation : Operation.ofWire network body = do
      let a ← result
      return toOperation a)
    (haction : ofWire network option = do
      let a ← result
      return toAction a) :
    ReadAs network body option toOperation toAction result where
  operation tx htx := by
    rw [Transaction.operationOfWire, htx]
    show Operation.ofWire network body = _
    rw [hoperation]
    cases result <;> rfl
  action bs hbs := by
    rw [decode, hbs]
    show ofWire network option = _
    rw [haction]
    cases result <;> rfl

/-- Whatever a transaction and a proposal can both make is written and read alike by both,
a transfer also at any place of a batch. The release of an escrow is meant with exactly one
amount. -/
theorem same_as_operation (network : Network) :
    (∀ t : Transfer, ∃ result,
      WrittenAs network (.send t) (.enact (.send t)) .send .send result ∧
        t.WrittenInBatchAs network result) ∧
    (∀ m : Wire.Send, ∃ result,
      ReadAs network (.send m) (.send m) .send (fun t => .enact (.send t)) result ∧
        Transfer.ReadInBatchAs network m result) ∧
    (∀ c : AccountConfiguration, ∃ result,
      WrittenAs network (.updateAccountConfiguration c) (.enact (.configureAccounts c))
        .updateAccountConfiguration .updateAccount result) ∧
    (∀ m : Wire.Update Wire.AccountConfiguration, ∃ result,
      ReadAs network (.updateAccountConfiguration m) (.updateAccount m)
        .updateAccountConfiguration (fun c => .enact (.configureAccounts c)) result) ∧
    (∀ (escrowId : UInt64) (amount : Amount), ∃ result,
      WrittenAs network (.releaseEscrow escrowId [amount])
        (.enact (.releaseEscrow escrowId amount)) .releaseEscrow .releaseEscrow result) ∧
    ∀ (m : Wire.ReleaseEscrow) (coin : Wire.Coin), m.amount = [coin] → ∃ result,
      ReadAs network (.releaseEscrow m) (.releaseEscrow m)
        (fun r : UInt64 × Amount => .releaseEscrow r.1 [r.2])
        (fun r => .enact (.releaseEscrow r.1 r.2)) result := by
  refine ⟨fun t => ?_, fun m => ?_, fun c => ?_, fun m => ?_, fun escrowId amount => ?_,
    fun m coin hcoin => ?_⟩
  · exact ⟨t.toWire network, writtenAs (fun _ => rfl) rfl, t.writtenInBatchAs⟩
  · refine ⟨Transfer.ofWire network m, readAs rfl ?_, Transfer.readInBatchAs m⟩
    rw [ofWire, transferOfWire_eq]
  · exact ⟨c.toUpdate network, writtenAs (fun _ => rfl) (Measure.toWire_configureAccounts c)⟩
  · exact ⟨AccountConfiguration.ofUpdate network m, readAs rfl (ofWire_updateAccount m)⟩
  · refine ⟨do
      let coin ← amount.toCoin
      return ⟨Wire.header, Id.encode escrowId, [coin]⟩, writtenAs (fun strict => ?_) ?_⟩
    · simp only [Operation.toWire, List.mapM_cons, List.mapM_nil, bind_assoc, pure_bind]
    · simp only [toWire, Measure.toWire, bind_assoc, pure_bind]
  · refine ⟨do
      let escrowId ← Id.ofField "escrowId" m.escrowId
      let amount ← Amount.ofCoin coin
      return (escrowId, amount), readAs ?_ ?_⟩
    · simp only [Operation.ofWire, hcoin, List.mapM_cons, List.mapM_nil, bind_assoc, pure_bind]
    · simp only [ofWire, hcoin, List.head?_cons, Check.given, ok_bind, bind_assoc, pure_bind]

/-- Seven smallest units are released from the escrow 1, by a transaction and by a
proposal. -/
theorem same_as_operation_release :
    ∃ (m : Wire.ReleaseEscrow) (coin : Wire.Coin) (amount : Amount),
      m = ⟨Wire.header, Id.encode 1, [coin]⟩ ∧ coin = ⟨0, 7, "CASH"⟩ ∧ amount = ⟨"7", 9, "CASH"⟩ ∧
      m.amount = [coin] ∧
      Transaction.operationOfWire .testnet ⟨none, [], [], some (.releaseEscrow m)⟩ =
        .ok (.releaseEscrow 1 [amount]) ∧
      Action.decode .testnet
          (Wire.Message.encode (⟨some (.releaseEscrow m)⟩ : Wire.ProposalOptions)) =
        .ok (.enact (.releaseEscrow 1 amount)) := by
  obtain ⟨-, -, -, -, -, hread⟩ := same_as_operation .testnet
  obtain ⟨result, hresult⟩ := hread ⟨Wire.header, Id.encode 1, [⟨0, 7, "CASH"⟩]⟩ _ rfl
  have hoperation := hresult.operation ⟨none, [], [], some (.releaseEscrow _)⟩ rfl
  have haction := hresult.action _ (Wire.ProposalOptions.decode?_encode _ (by decide +kernel))
  -- what the transaction is read as tells what the action is read as
  have hvalue : Transaction.operationOfWire .testnet
      ⟨none, [], [], some (.releaseEscrow ⟨Wire.header, Id.encode 1, [⟨0, 7, "CASH"⟩]⟩)⟩ =
        .ok (.releaseEscrow 1 [⟨"7", 9, "CASH"⟩]) := by decide +kernel
  rw [hvalue] at hoperation
  obtain ⟨⟨escrowId, amount⟩, rfl, hrelease⟩ := map_eq_ok.mp hoperation.symm
  obtain ⟨rfl, hamount⟩ := Operation.releaseEscrow.inj hrelease
  obtain rfl := List.head_eq_of_cons_eq hamount
  exact ⟨_, _, _, rfl, rfl, rfl, rfl, hvalue, haction⟩

end Action

end NameService
