import NameService.Hex
import NameService.Sha256
import NameService.Transaction.Envelope

/-
  What is signed, what is posted, and the id of what is posted.

  A signer signs the transaction without signatures behind a header: four fixed
  bytes, the chain id behind its length in one byte, and the signer's nonce in
  eight bytes. The chain id, the nonce and the bytes of the transaction can all be
  read off what is signed.
-/

namespace NameService

/-- The four bytes in front of everything that is signed. -/
def signCode : Bytes := [0x00, 0xca, 0xfe, 0x00]

/-- The most bytes of a chain id, which has one byte for its length. -/
def maxChainIdLength : Nat := 255

/-- A nonce in eight bytes, most significant first, negative ones as two's
complement. -/
def nonceBytes (nonce : Int64) : Bytes :=
  Bytes.bigEndian 8 nonce.toUInt64.toNat

/-- The bytes to sign for the bytes of a transaction. -/
def signBytes (chainId : String) (nonce : Int64) (txBytes : Bytes) : Except Error Bytes :=
  let id := Bytes.ofText chainId
  if maxChainIdLength < id.length then .error (.violation .chainIdTooLong)
  else .ok (signCode ++ UInt8.ofNat id.length :: (id ++ (nonceBytes nonce ++ txBytes)))

/-- The hash that a signer applies before signing. -/
inductive Prehash where
  | sha512
  deriving DecidableEq, Repr

def Prehash.name : Prehash → String
  | sha512 => "sha512"

structure SigningJob where
  bytes : Bytes
  prehash : Prehash
  deriving DecidableEq, Repr

structure EncodingOptions where
  /-- Refuse what relies on assumptions of the chain. -/
  strict : Bool := true
  deriving DecidableEq, Repr

namespace Transaction

/-- What a signer with the given nonce is asked to sign. -/
def signingJob (strict : Bool) (tx : Transaction) (nonce : Int64) : Except Error SigningJob := do
  let txBytes ← tx.encode strict
  let bytes ← signBytes tx.chainId nonce txBytes
  return ⟨bytes, .sha512⟩

end Transaction

namespace SignedTransaction

def post (s : SignedTransaction) : Except Error Bytes :=
  s.encode true

/-- The number of bytes of a hash that are kept as an id. -/
def idLength : Nat := 20

/-- The id of posted bytes: the first bytes of their hash, in uppercase digits. -/
def idOf (posted : Bytes) : String :=
  Hex.encodeUpper ((Sha256.hash posted).take idLength)

def id (s : SignedTransaction) : Except Error String := do
  let posted ← s.post
  return idOf posted

end SignedTransaction

end NameService
