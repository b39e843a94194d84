import NameService.Key
import NameService.Operation

/-
  Transactions: an operation with the chain it is for, the fee, and the
  multisignature contracts that authorise it; and transactions with their
  signatures.
-/

namespace NameService

/-- The fee of a transaction, and the address that pays it. -/
structure Fee where
  tokens : Option Amount
  payer : Option String
  deriving DecidableEq, Repr

/-- A transaction before it is signed. -/
structure Transaction where
  chainId : String
  fee : Option Fee
  /-- The ids of the contracts that authorise the transaction. -/
  multisig : List UInt64
  operation : Operation
  deriving DecidableEq, Repr

namespace Transaction

def network (tx : Transaction) : Network :=
  Network.ofChainId tx.chainId

end Transaction

/-- A transaction with its signatures, at least one. -/
structure SignedTransaction where
  transaction : Transaction
  primarySignature : Signature
  otherSignatures : List Signature
  deriving DecidableEq, Repr

namespace SignedTransaction

/-- All signatures, the primary one first. -/
def signatures (s : SignedTransaction) : List Signature :=
  s.primarySignature :: s.otherSignatures

end SignedTransaction

end NameService
