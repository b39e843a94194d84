import NameService.Address
import NameService.Amount
import NameService.Wire.Name

/-
  What domains and accounts consist of: targets on other chains, fees for kinds
  of messages, and the configuration of the whole extension.

  `toWire` gives the wire message of a value, and `ofWire` the value of a wire
  message, as everywhere in this library.
-/

namespace NameService

/-- An address on another chain, which is passed on unchecked. -/
structure Target where
  chain : String
  address : String
  deriving DecidableEq, Repr

namespace Target

def toWire (t : Target) : Wire.Target := ⟨t.chain, t.address⟩

def ofWire (m : Wire.Target) : Target := ⟨m.blockchainId, m.address⟩

end Target

/-- The fee that a domain asks for one kind of message. -/
structure MessageFee where
  path : String
  fee : Amount
  deriving DecidableEq, Repr

namespace MessageFee

def toWire (f : MessageFee) : Except Error Wire.MessageFee := do
  let fee ← f.fee.toCoin
  return ⟨f.path, some fee⟩

def ofWire (m : Wire.MessageFee) : Except Error MessageFee := do
  let fee ← Amount.ofField "fee" m.fee
  return ⟨m.messagePath, fee⟩

end MessageFee

/-- The configuration of domains and accounts. -/
structure AccountConfiguration where
  owner : String
  validDomain : String
  validName : String
  validBlockchainId : String
  validBlockchainAddress : String
  /-- The renewal period of domains, in seconds. -/
  domainRenew : Int64
  deriving DecidableEq, Repr

namespace AccountConfiguration

def toWire (network : Network) (c : AccountConfiguration) :
    Except Error Wire.AccountConfiguration := do
  let owner ← Address.decodeFor network c.owner
  return {
    metadata := Wire.header
    owner
    validDomain := c.validDomain
    validName := c.validName
    validBlockchainId := c.validBlockchainId
    validBlockchainAddress := c.validBlockchainAddress
    domainRenew := c.domainRenew }

def ofWire (network : Network) (m : Wire.AccountConfiguration) :
    Except Error AccountConfiguration := do
  let owner ← Address.ofField network "owner" m.owner
  return {
    owner
    validDomain := m.validDomain
    validName := m.validName
    validBlockchainId := m.validBlockchainId
    validBlockchainAddress := m.validBlockchainAddress
    domainRenew := m.domainRenew }

/-- The wire message that sets a configuration. -/
def toUpdate (network : Network) (c : AccountConfiguration) :
    Except Error (Wire.Update Wire.AccountConfiguration) := do
  let patch ← c.toWire network
  return ⟨Wire.header, some patch⟩

def ofUpdate (network : Network) (m : Wire.Update Wire.AccountConfiguration) :
    Except Error AccountConfiguration := do
  ofWire network (← Check.given "patch" m.patch)

end AccountConfiguration

end NameService
