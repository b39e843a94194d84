import NameService.Bytes

/-
  Public keys and signatures as wallets hand them over.
-/

namespace NameService

inductive Algorithm where
  | ed25519
  | secp256k1
  deriving DecidableEq, Repr

def Algorithm.name : Algorithm → String
  | .ed25519 => "ed25519"
  | .secp256k1 => "secp256k1"

/-- A public key of either scheme, of any length. -/
structure PublicKey where
  algorithm : Algorithm
  data : Bytes
  deriving DecidableEq, Repr

/-- A signature with the key that made it and the signer's sequence number. -/
structure Signature where
  nonce : Int64
  publicKey : PublicKey
  signature : Bytes
  deriving DecidableEq, Repr

end NameService
