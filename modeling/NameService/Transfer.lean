import NameService.Address
import NameService.Amount
import NameService.Memo
import NameService.Wire.Payment

/-
  Transfers of one token between two addresses: the message of a transaction,
  an action of a proposal, and a member of a batch. What a transaction writes and
  reads stands here, what a proposal does beside the other actions.
-/

namespace NameService

structure Transfer where
  sender : String
  recipient : String
  amount : Amount
  memo : Option String
  deriving DecidableEq, Repr

namespace Transfer

/-- The wire message of a transfer that a transaction makes. -/
def toWire (network : Network) (t : Transfer) : Except Error Wire.Send := do
  let source ← Address.decodeFor network t.sender
  let destination ← Address.decodeFor network t.recipient
  let amount ← t.amount.toCoin
  let memo ← Memo.encode t.memo
  return ⟨Wire.header, source, destination, some amount, memo, []⟩

/-- The transfer that a transaction makes by a wire message. -/
def ofWire (network : Network) (m : Wire.Send) : Except Error Transfer := do
  let sender ← Address.ofField network "source" m.source
  let recipient ← Address.ofField network "destination" m.destination
  let amount ← Amount.ofField "amount" m.amount
  return ⟨sender, recipient, amount, Memo.decode m.memo⟩

end Transfer

end NameService
