import NameService.Operation.Wire
import NameService.Transaction

/-
  The envelope: a transaction on the wire, with or without signatures.

  Writing checks the signatures first, then the fee, then the operation.
  Reading checks the signatures, of which there must be one, then the fee, the
  contracts and the operation.
-/

namespace NameService

namespace Fee

def toWire (network : Network) (fee : Fee) : Except Error Wire.FeeInfo := do
  let payer ← Address.decodeFor? network fee.payer
  let tokens ← Check.optionally Amount.toCoin fee.tokens
  return ⟨Wire.header, payer, tokens⟩

def ofWire (network : Network) (m : Wire.FeeInfo) : Except Error Fee := do
  let payer ← Address.ofField? network "payer" m.payer
  let tokens ← Check.optionally Amount.ofCoin m.fees
  return ⟨tokens, payer⟩

end Fee

namespace Signature

def keyLength : Nat := 32

/-- The wire message of a signature, which must be of the scheme ed25519. -/
def toWire (s : Signature) : Except Error Wire.Signature := do
  if s.publicKey.algorithm ≠ .ed25519 then throw (.unsupported .secp256k1)
  let key ← Check.exactly "pubkey" keyLength s.publicKey.data
  return ⟨s.nonce, some ⟨some key⟩, some ⟨some s.signature⟩⟩

def ofWire (m : Wire.Signature) : Except Error Signature := do
  let key ← Check.given "pubkey" (m.publicKey.bind Wire.PublicKey.ed25519)
  let key ← Check.exactly "pubkey" keyLength key
  let signature ← Check.given "signature" (m.signature.bind Wire.SignatureBytes.ed25519)
  return ⟨m.sequence, ⟨.ed25519, key⟩, signature⟩

def encode (s : Signature) : Except Error Bytes := do
  let m ← s.toWire
  return Wire.Message.encode m

def decode (bs : Bytes) : Except Error Signature :=
  match (Wire.Message.decode? bs : Option Wire.Signature) with
  | none => .error .malformedWire
  | some m => ofWire m

end Signature

namespace Transaction

/-- The wire message of a transaction under the given signatures. -/
def toWire (strict : Bool) (signatures : List Wire.Signature) (tx : Transaction) :
    Except Error Wire.Tx := do
  let fees ← Check.optionally (Fee.toWire tx.network) tx.fee
  let body ← tx.operation.toWire tx.network strict
  return ⟨fees, signatures, tx.multisig.map Id.encode, some body⟩

/-- The bytes of a transaction without signatures. -/
def encode (strict : Bool) (tx : Transaction) : Except Error Bytes := do
  let m ← tx.toWire strict []
  return Wire.Message.encode m

def operationOfWire (network : Network) (m : Wire.Tx) : Except Error Operation :=
  match m.body with
  | none => .error (.unsupported .message)
  | some body => Operation.ofWire network body

end Transaction

namespace SignedTransaction

def toWire (strict : Bool) (s : SignedTransaction) : Except Error Wire.Tx := do
  let signatures ← s.signatures.mapM Signature.toWire
  s.transaction.toWire strict signatures

def encode (strict : Bool) (s : SignedTransaction) : Except Error Bytes := do
  let m ← s.toWire strict
  return Wire.Message.encode m

/-- The signed transaction of a wire message, for the given chain. -/
def ofWire (chainId : String) (m : Wire.Tx) : Except Error SignedTransaction := do
  let network := Network.ofChainId chainId
  let signatures ← m.signatures.mapM Signature.ofWire
  match signatures with
  | [] => throw (.missing "signatures")
  | primary :: others =>
    let fee ← Check.optionally (Fee.ofWire network) m.fees
    let multisig ← m.multisig.mapM (Id.ofField "multisig")
    let operation ← Transaction.operationOfWire network m
    return ⟨⟨chainId, fee, multisig, operation⟩, primary, others⟩

def decode (chainId : String) (bs : Bytes) : Except Error SignedTransaction :=
  match (Wire.Message.decode? bs : Option Wire.Tx) with
  | none => .error .malformedWire
  | some m => ofWire chainId m

end SignedTransaction

end NameService
