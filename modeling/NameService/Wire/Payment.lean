import NameService.Wire.Coin

/-
  Messages that move coins or hold them back: transfers, fees, swaps and
  escrows, and the configurations that set fees.
-/

namespace NameService.Wire

structure Send where
  metadata : Option Metadata
  source : Bytes
  destination : Bytes
  amount : Option Coin
  memo : String
  reference : Bytes
  deriving DecidableEq, Repr

instance : Message Send where
  Row := Option Metadata × Bytes × Bytes × Option Coin × String × Bytes × Unit
  layout :=
    .field (.message 1) <|
    .field (.scalar 2 .bytes) <|
    .field (.scalar 3 .bytes) <|
    .field (.message 4) <|
    .field (.scalar 5 .text) <|
    .field (.scalar 6 .bytes) .done
  toRow m := (m.metadata, m.source, m.destination, m.amount, m.memo, m.reference, ())
  ofRow := fun (metadata, source, destination, amount, memo, reference, ()) =>
    ⟨metadata, source, destination, amount, memo, reference⟩

/-- What is paid for a transaction, and by whom. -/
structure FeeInfo where
  metadata : Option Metadata
  payer : Bytes
  fees : Option Coin
  deriving DecidableEq, Repr

instance : Message FeeInfo where
  Row := Option Metadata × Bytes × Option Coin × Unit
  layout :=
    .field (.message 1) <|
    .field (.scalar 2 .bytes) <|
    .field (.message 3) .done
  toRow m := (m.metadata, m.payer, m.fees, ())
  ofRow := fun (metadata, payer, fees, ()) => ⟨metadata, payer, fees⟩

/-- The configuration of transfers. -/
structure CashConfiguration where
  metadata : Option Metadata
  owner : Bytes
  collectorAddress : Bytes
  minimalFee : Option Coin
  deriving DecidableEq, Repr

instance : Message CashConfiguration where
  Row := Option Metadata × Bytes × Bytes × Option Coin × Unit
  layout :=
    .field (.message 1) <|
    .field (.scalar 2 .bytes) <|
    .field (.scalar 3 .bytes) <|
    .field (.message 4) .done
  toRow m := (m.metadata, m.owner, m.collectorAddress, m.minimalFee, ())
  ofRow := fun (metadata, owner, collectorAddress, minimalFee, ()) =>
    ⟨metadata, owner, collectorAddress, minimalFee⟩

/-- The configuration of the fee for the size of a transaction. -/
structure TxFeeConfiguration where
  metadata : Option Metadata
  owner : Bytes
  freeBytes : Int32
  baseFee : Option Coin
  deriving DecidableEq, Repr

instance : Message TxFeeConfiguration where
  Row := Option Metadata × Bytes × Int32 × Option Coin × Unit
  layout :=
    .field (.message 1) <|
    .field (.scalar 2 .bytes) <|
    .field (.scalar 3 .int32) <|
    .field (.message 4) .done
  toRow m := (m.metadata, m.owner, m.freeBytes, m.baseFee, ())
  ofRow := fun (metadata, owner, freeBytes, baseFee, ()) =>
    ⟨metadata, owner, freeBytes, baseFee⟩

/-- The configuration of the fees for kinds of messages. -/
structure MessageFeeConfiguration where
  metadata : Option Metadata
  owner : Bytes
  feeAdmin : Bytes
  deriving DecidableEq, Repr

instance : Message MessageFeeConfiguration where
  Row := Option Metadata × Bytes × Bytes × Unit
  layout :=
    .field (.message 1) <|
    .field (.scalar 2 .bytes) <|
    .field (.scalar 3 .bytes) .done
  toRow m := (m.metadata, m.owner, m.feeAdmin, ())
  ofRow := fun (metadata, owner, feeAdmin, ()) => ⟨metadata, owner, feeAdmin⟩

structure SetMessageFee where
  metadata : Option Metadata
  messagePath : String
  fee : Option Coin
  deriving DecidableEq, Repr

instance : Message SetMessageFee where
  Row := Option Metadata × String × Option Coin × Unit
  layout :=
    .field (.message 1) <|
    .field (.scalar 2 .text) <|
    .field (.message 3) .done
  toRow m := (m.metadata, m.messagePath, m.fee, ())
  ofRow := fun (metadata, messagePath, fee, ()) => ⟨metadata, messagePath, fee⟩

structure CreateSwap where
  metadata : Option Metadata
  source : Bytes
  preimageHash : Bytes
  destination : Bytes
  amount : List Coin
  timeout : Int64
  memo : String
  deriving DecidableEq, Repr

instance : Message CreateSwap where
  Row := Option Metadata × Bytes × Bytes × Bytes × List Coin × Int64 × String × Unit
  layout :=
    .field (.message 1) <|
    .field (.scalar 2 .bytes) <|
    .field (.scalar 3 .bytes) <|
    .field (.scalar 4 .bytes) <|
    .field (.messages 5) <|
    .field (.scalar 6 .int64) <|
    .field (.scalar 7 .text) .done
  toRow m :=
    (m.metadata, m.source, m.preimageHash, m.destination, m.amount, m.timeout, m.memo, ())
  ofRow := fun (metadata, source, preimageHash, destination, amount, timeout, memo, ()) =>
    ⟨metadata, source, preimageHash, destination, amount, timeout, memo⟩

/-- The claim of a swap, which discloses the preimage. -/
structure ReleaseSwap where
  metadata : Option Metadata
  swapId : Bytes
  preimage : Bytes
  deriving DecidableEq, Repr

instance : Message ReleaseSwap where
  Row := Option Metadata × Bytes × Bytes × Unit
  layout :=
    .field (.message 1) <|
    .field (.scalar 2 .bytes) <|
    .field (.scalar 3 .bytes) .done
  toRow m := (m.metadata, m.swapId, m.preimage, ())
  ofRow := fun (metadata, swapId, preimage, ()) => ⟨metadata, swapId, preimage⟩

structure CreateEscrow where
  metadata : Option Metadata
  source : Bytes
  arbiter : Bytes
  destination : Bytes
  amount : List Coin
  timeout : Int64
  memo : String
  deriving DecidableEq, Repr

instance : Message CreateEscrow where
  Row := Option Metadata × Bytes × Bytes × Bytes × List Coin × Int64 × String × Unit
  layout :=
    .field (.message 1) <|
    .field (.scalar 2 .bytes) <|
    .field (.scalar 3 .bytes) <|
    .field (.scalar 4 .bytes) <|
    .field (.messages 5) <|
    .field (.scalar 6 .int64) <|
    .field (.scalar 7 .text) .done
  toRow m := (m.metadata, m.source, m.arbiter, m.destination, m.amount, m.timeout, m.memo, ())
  ofRow := fun (metadata, source, arbiter, destination, amount, timeout, memo, ()) =>
    ⟨metadata, source, arbiter, destination, amount, timeout, memo⟩

structure ReleaseEscrow where
  metadata : Option Metadata
  escrowId : Bytes
  amount : List Coin
  deriving DecidableEq, Repr

instance : Message ReleaseEscrow where
  Row := Option Metadata × Bytes × List Coin × Unit
  layout :=
    .field (.message 1) <|
    .field (.scalar 2 .bytes) <|
    .field (.messages 3) .done
  toRow m := (m.metadata, m.escrowId, m.amount, ())
  ofRow := fun (metadata, escrowId, amount, ()) => ⟨metadata, escrowId, amount⟩

/-- The change of the parties of an escrow. -/
structure UpdateEscrowParties where
  metadata : Option Metadata
  escrowId : Bytes
  source : Bytes
  arbiter : Bytes
  destination : Bytes
  deriving DecidableEq, Repr

instance : Message UpdateEscrowParties where
  Row := Option Metadata × Bytes × Bytes × Bytes × Bytes × Unit
  layout :=
    .field (.message 1) <|
    .field (.scalar 2 .bytes) <|
    .field (.scalar 3 .bytes) <|
    .field (.scalar 4 .bytes) <|
    .field (.scalar 5 .bytes) .done
  toRow m := (m.metadata, m.escrowId, m.source, m.arbiter, m.destination, ())
  ofRow := fun (metadata, escrowId, source, arbiter, destination, ()) =>
    ⟨metadata, escrowId, source, arbiter, destination⟩

end NameService.Wire
