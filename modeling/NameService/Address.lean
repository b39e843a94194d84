import NameService.Bech32
import NameService.Check
import NameService.Key
import NameService.Network
import NameService.Sha256

/-
  Addresses: a 20-byte hash, spelled as a bech32 string under the prefix of its
  network.

  A transaction holds addresses as texts that nobody has checked yet; the wire
  holds hashes. `encode` and `decodeFor` pass between the two.
-/

namespace NameService.Address

def length : Nat := 20

/-- What a bech32 text holds: its prefix in lower case, and its bytes. -/
structure Decoded where
  hrp : String
  data : Bytes
  deriving DecidableEq, Repr

/-- The spelling of a hash on a network. -/
def encode (network : Network) (hash : Bytes) : Except Error String :=
  if hash.length = length then .ok (Bech32.encode network.hrp hash)
  else .error (.invalidLength "address" length hash.length)

/-- Reads a bech32 text of any prefix and any length. -/
def decode (address : String) : Except Error Decoded :=
  match Bech32.decode address with
  | .ok (hrp, data) => .ok ⟨hrp, data⟩
  | .error .unreadable => .error (.invalidAddress (.unreadable address))
  | .error .badChecksum => .error (.invalidAddress (.badChecksum address))

/-- The hash of an address of the given network. -/
def decodeFor (network : Network) (address : String) : Except Error Bytes := do
  let decoded ← decode address
  if decoded.hrp ≠ network.hrp then
    throw (.invalidAddress (.wrongPrefix address network.hrp decoded.hrp))
  else if decoded.data.length ≠ length then
    throw (.invalidLength "address" length decoded.data.length)
  else
    return decoded.data

/-- The hash of an address that must be spelled for the given network; an
absent address is an empty byte string. -/
def decodeFor? (network : Network) : Option String → Except Error Bytes
  | none => .ok []
  | some address => decodeFor network address

/-- The spelling of a hash in a byte field that must be there. -/
def ofField (network : Network) (field : String) (bs : Bytes) : Except Error String := do
  encode network (← Check.fixed field length bs)

def ofField? (network : Network) (field : String) (bs : Bytes) : Except Error (Option String) :=
  if bs.isEmpty then .ok none else (ofField network field bs).map some

/-- The text is an address of some network. -/
def isValid (address : String) : Bool :=
  match decode address with
  | .ok decoded => (Network.ofHrp? decoded.hrp).isSome && decoded.data.length == length
  | .error _ => false

/-- What stands before a key when it is hashed. -/
def keyHeader : Algorithm → String
  | .ed25519 => "sigs/ed25519/"
  | .secp256k1 => "sigs/secp256k1/"

/-- The address of a key's owner: the first bytes of the hash of the key behind
the name of its scheme. -/
def ofKey (network : Network) (key : PublicKey) : Except Error String :=
  encode network ((Sha256.hash (Bytes.ofText (keyHeader key.algorithm) ++ key.data)).take length)

end NameService.Address
