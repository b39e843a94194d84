import NameService.Wire.Message

/-
  The small messages that others embed: the header with the schema version,
  coins, and targets on other chains.
-/

namespace NameService.Wire

/-- The header of a message: the version of its schema. -/
structure Metadata where
  schema : Int32
  deriving DecidableEq, Repr

instance : Message Metadata where
  Row := Int32 × Unit
  layout := .field (.scalar 1 .int32) .done
  toRow m := (m.schema, ())
  ofRow := fun (schema, ()) => ⟨schema⟩

/-- The header that every message written here carries. -/
def header : Option Metadata := some ⟨1⟩

/-- An amount of one token: whole units and billionths. -/
structure Coin where
  whole : Int64
  fractional : Int64
  ticker : String
  deriving DecidableEq, Repr

instance : Message Coin where
  Row := Int64 × Int64 × String × Unit
  layout :=
    .field (.scalar 1 .int64) <|
    .field (.scalar 2 .int64) <|
    .field (.scalar 3 .text) .done
  toRow m := (m.whole, m.fractional, m.ticker, ())
  ofRow := fun (whole, fractional, ticker, ()) => ⟨whole, fractional, ticker⟩

structure Target where
  blockchainId : String
  address : String
  deriving DecidableEq, Repr

instance : Message Target where
  Row := String × String × Unit
  layout :=
    .field (.scalar 1 .text) <|
    .field (.scalar 2 .text) .done
  toRow m := (m.blockchainId, m.address, ())
  ofRow := fun (blockchainId, address, ()) => ⟨blockchainId, address⟩

/-- The change of a configuration. -/
structure Update (γ : Type) where
  metadata : Option Metadata
  patch : Option γ
  deriving DecidableEq, Repr

instance {γ : Type} [Message γ] : Message (Update γ) where
  Row := Option Metadata × Option γ × Unit
  layout :=
    .field (.message 1) <|
    .field (.message 2) .done
  toRow m := (m.metadata, m.patch, ())
  ofRow := fun (metadata, patch, ()) => ⟨metadata, patch⟩

/-- A message that only names a thing by its id. -/
structure Reference where
  metadata : Option Metadata
  id : Bytes
  deriving DecidableEq, Repr

instance : Message Reference where
  Row := Option Metadata × Bytes × Unit
  layout :=
    .field (.message 1) <|
    .field (.scalar 2 .bytes) .done
  toRow m := (m.metadata, m.id, ())
  ofRow := fun (metadata, id, ()) => ⟨metadata, id⟩

end NameService.Wire
