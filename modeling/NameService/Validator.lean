import NameService.Check
import NameService.Hex
import NameService.SortedMap
import NameService.Wire.Governance

/-
  Validators, named by their public keys: the name of the signature scheme, an
  underscore, and the key in lowercase hexadecimal digits.
-/

namespace NameService.Validator

/-- The name of the one scheme that validators use. -/
def scheme : String := "ed25519"

def keyHeader : String := "ed25519_"

def keyLength : Nat := 32

def name (publicKey : Bytes) : String :=
  keyHeader ++ Hex.encode publicKey

/-- A digit as names are written with. -/
def isNameDigit (c : Char) : Bool :=
  c.isDigit || ('a' ≤ c && c ≤ 'f')

/-- The public key in a name, which must be of full length and in lower case. -/
def ofName (name : String) : Except Error Bytes :=
  match keyHeader.toList.isPrefixOf? name.toList with
  | none => .error (.violation .validatorKey)
  | some digits =>
    if digits.length = 2 * keyLength && digits.all isNameDigit then
      match Hex.ofDigits? digits with
      | some publicKey => .ok publicKey
      | none => .error (.violation .validatorKey)
    else .error (.violation .validatorKey)

/-- The wire messages of new powers, in the order of the names. -/
def updatesToWire (updates : SortedMap Int64) : Except Error (List Wire.ValidatorUpdate) :=
  updates.entries.mapM fun (name, power) => do
    let publicKey ← ofName name
    return ⟨some ⟨scheme, publicKey⟩, power⟩

def updateOfWire (m : Wire.ValidatorUpdate) : Except Error (String × Int64) := do
  let key ← Check.given "pubKey" m.publicKey
  let data ← Check.present "pubKey" key.data
  return (name data, m.power)

def updatesOfWire (ms : List Wire.ValidatorUpdate) : Except Error (SortedMap Int64) := do
  let updates ← ms.mapM updateOfWire
  return SortedMap.ofList updates

end NameService.Validator
