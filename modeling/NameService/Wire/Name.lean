import NameService.Wire.Coin

/-
  Messages about names: usernames, and domains with their accounts.
-/

namespace NameService.Wire

/-! ## Usernames -/

/-- A username and the targets it points to, when it is registered and when its
targets are changed. -/
structure UsernameTargets where
  metadata : Option Metadata
  username : String
  targets : List Target
  deriving DecidableEq, Repr

instance : Message UsernameTargets where
  Row := Option Metadata × String × List Target × Unit
  layout :=
    .field (.message 1) <|
    .field (.scalar 2 .text) <|
    .field (.messages 3) .done
  toRow m := (m.metadata, m.username, m.targets, ())
  ofRow := fun (metadata, username, targets, ()) => ⟨metadata, username, targets⟩

structure TransferUsername where
  metadata : Option Metadata
  username : String
  newOwner : Bytes
  deriving DecidableEq, Repr

instance : Message TransferUsername where
  Row := Option Metadata × String × Bytes × Unit
  layout :=
    .field (.message 1) <|
    .field (.scalar 2 .text) <|
    .field (.scalar 3 .bytes) .done
  toRow m := (m.metadata, m.username, m.newOwner, ())
  ofRow := fun (metadata, username, newOwner, ()) => ⟨metadata, username, newOwner⟩

structure UsernameConfiguration where
  metadata : Option Metadata
  owner : Bytes
  validUsernameName : String
  validUsernameLabel : String
  deriving DecidableEq, Repr

instance : Message UsernameConfiguration where
  Row := Option Metadata × Bytes × String × String × Unit
  layout :=
    .field (.message 1) <|
    .field (.scalar 2 .bytes) <|
    .field (.scalar 3 .text) <|
    .field (.scalar 4 .text) .done
  toRow m := (m.metadata, m.owner, m.validUsernameName, m.validUsernameLabel, ())
  ofRow := fun (metadata, owner, validUsernameName, validUsernameLabel, ()) =>
    ⟨metadata, owner, validUsernameName, validUsernameLabel⟩

/-! ## Domains -/

/-- The configuration of domains and accounts. -/
structure AccountConfiguration where
  metadata : Option Metadata
  owner : Bytes
  validDomain : String
  validName : String
  validBlockchainId : String
  validBlockchainAddress : String
  domainRenew : Int64
  deriving DecidableEq, Repr

instance : Message AccountConfiguration where
  Row := Option Metadata × Bytes × String × String × String × String × Int64 × Unit
  layout :=
    .field (.message 1) <|
    .field (.scalar 2 .bytes) <|
    .field (.scalar 3 .text) <|
    .field (.scalar 4 .text) <|
    .field (.scalar 5 .text) <|
    .field (.scalar 6 .text) <|
    .field (.scalar 7 .int64) .done
  toRow m :=
    (m.metadata, m.owner, m.validDomain, m.validName, m.validBlockchainId,
      m.validBlockchainAddress, m.domainRenew, ())
  ofRow := fun (metadata, owner, validDomain, validName, validBlockchainId,
      validBlockchainAddress, domainRenew, ()) =>
    ⟨metadata, owner, validDomain, validName, validBlockchainId, validBlockchainAddress,
      domainRenew⟩

/-- The fee that a domain asks for one kind of message. -/
structure MessageFee where
  messagePath : String
  fee : Option Coin
  deriving DecidableEq, Repr

instance : Message MessageFee where
  Row := String × Option Coin × Unit
  layout :=
    .field (.scalar 1 .text) <|
    .field (.message 2) .done
  toRow m := (m.messagePath, m.fee, ())
  ofRow := fun (messagePath, fee, ()) => ⟨messagePath, fee⟩

structure RegisterDomain where
  metadata : Option Metadata
  domain : String
  admin : Bytes
  hasSuperuser : Bool
  thirdPartyToken : Bytes
  messageFees : List MessageFee
  accountRenew : Int64
  deriving DecidableEq, Repr

instance : Message RegisterDomain where
  Row := Option Metadata × String × Bytes × Bool × Bytes × List MessageFee × Int64 × Unit
  layout :=
    .field (.message 1) <|
    .field (.scalar 2 .text) <|
    .field (.scalar 3 .bytes) <|
    .field (.scalar 4 .bool) <|
    .field (.scalar 5 .bytes) <|
    .field (.messages 6) <|
    .field (.scalar 7 .int64) .done
  toRow m :=
    (m.metadata, m.domain, m.admin, m.hasSuperuser, m.thirdPartyToken, m.messageFees,
      m.accountRenew, ())
  ofRow := fun (metadata, domain, admin, hasSuperuser, thirdPartyToken, messageFees,
      accountRenew, ()) =>
    ⟨metadata, domain, admin, hasSuperuser, thirdPartyToken, messageFees, accountRenew⟩

structure ReplaceMessageFees where
  metadata : Option Metadata
  domain : String
  newMessageFees : List MessageFee
  deriving DecidableEq, Repr

instance : Message ReplaceMessageFees where
  Row := Option Metadata × String × List MessageFee × Unit
  layout :=
    .field (.message 1) <|
    .field (.scalar 2 .text) <|
    .field (.messages 3) .done
  toRow m := (m.metadata, m.domain, m.newMessageFees, ())
  ofRow := fun (metadata, domain, newMessageFees, ()) => ⟨metadata, domain, newMessageFees⟩

structure TransferDomain where
  metadata : Option Metadata
  domain : String
  newAdmin : Bytes
  deriving DecidableEq, Repr

instance : Message TransferDomain where
  Row := Option Metadata × String × Bytes × Unit
  layout :=
    .field (.message 1) <|
    .field (.scalar 2 .text) <|
    .field (.scalar 3 .bytes) .done
  toRow m := (m.metadata, m.domain, m.newAdmin, ())
  ofRow := fun (metadata, domain, newAdmin, ()) => ⟨metadata, domain, newAdmin⟩

/-- A message that only names a domain. -/
structure DomainReference where
  metadata : Option Metadata
  domain : String
  deriving DecidableEq, Repr

instance : Message DomainReference where
  Row := Option Metadata × String × Unit
  layout :=
    .field (.message 1) <|
    .field (.scalar 2 .text) .done
  toRow m := (m.metadata, m.domain, ())
  ofRow := fun (metadata, domain, ()) => ⟨metadata, domain⟩

/-! ## Accounts -/

structure RegisterAccount where
  metadata : Option Metadata
  domain : String
  name : String
  owner : Bytes
  targets : List Target
  thirdPartyToken : Bytes
  deriving DecidableEq, Repr

instance : Message RegisterAccount where
  Row := Option Metadata × String × String × Bytes × List Target × Bytes × Unit
  layout :=
    .field (.message 1) <|
    .field (.scalar 2 .text) <|
    .field (.scalar 3 .text) <|
    .field (.scalar 4 .bytes) <|
    .field (.messages 5) <|
    .field (.scalar 6 .bytes) .done
  toRow m := (m.metadata, m.domain, m.name, m.owner, m.targets, m.thirdPartyToken, ())
  ofRow := fun (metadata, domain, name, owner, targets, thirdPartyToken, ()) =>
    ⟨metadata, domain, name, owner, targets, thirdPartyToken⟩

structure TransferAccount where
  metadata : Option Metadata
  domain : String
  name : String
  newOwner : Bytes
  deriving DecidableEq, Repr

instance : Message TransferAccount where
  Row := Option Metadata × String × String × Bytes × Unit
  layout :=
    .field (.message 1) <|
    .field (.scalar 2 .text) <|
    .field (.scalar 3 .text) <|
    .field (.scalar 4 .bytes) .done
  toRow m := (m.metadata, m.domain, m.name, m.newOwner, ())
  ofRow := fun (metadata, domain, name, newOwner, ()) => ⟨metadata, domain, name, newOwner⟩

structure ReplaceTargets where
  metadata : Option Metadata
  domain : String
  name : String
  newTargets : List Target
  deriving DecidableEq, Repr

instance : Message ReplaceTargets where
  Row := Option Metadata × String × String × List Target × Unit
  layout :=
    .field (.message 1) <|
    .field (.scalar 2 .text) <|
    .field (.scalar 3 .text) <|
    .field (.messages 4) .done
  toRow m := (m.metadata, m.domain, m.name, m.newTargets, ())
  ofRow := fun (metadata, domain, name, newTargets, ()) => ⟨metadata, domain, name, newTargets⟩

/-- A message that only names an account. -/
structure AccountReference where
  metadata : Option Metadata
  domain : String
  name : String
  deriving DecidableEq, Repr

instance : Message AccountReference where
  Row := Option Metadata × String × String × Unit
  layout :=
    .field (.message 1) <|
    .field (.scalar 2 .text) <|
    .field (.scalar 3 .text) .done
  toRow m := (m.metadata, m.domain, m.name, ())
  ofRow := fun (metadata, domain, name, ()) => ⟨metadata, domain, name⟩

structure AddCertificate where
  metadata : Option Metadata
  domain : String
  name : String
  certificate : Bytes
  deriving DecidableEq, Repr

instance : Message AddCertificate where
  Row := Option Metadata × String × String × Bytes × Unit
  layout :=
    .field (.message 1) <|
    .field (.scalar 2 .text) <|
    .field (.scalar 3 .text) <|
    .field (.scalar 4 .bytes) .done
  toRow m := (m.metadata, m.domain, m.name, m.certificate, ())
  ofRow := fun (metadata, domain, name, certificate, ()) => ⟨metadata, domain, name, certificate⟩

/-- A certificate that an account gives up, by its hash. -/
structure DeleteCertificate where
  metadata : Option Metadata
  domain : String
  name : String
  certificateHash : Bytes
  deriving DecidableEq, Repr

instance : Message DeleteCertificate where
  Row := Option Metadata × String × String × Bytes × Unit
  layout :=
    .field (.message 1) <|
    .field (.scalar 2 .text) <|
    .field (.scalar 3 .text) <|
    .field (.scalar 4 .bytes) .done
  toRow m := (m.metadata, m.domain, m.name, m.certificateHash, ())
  ofRow := fun (metadata, domain, name, certificateHash, ()) =>
    ⟨metadata, domain, name, certificateHash⟩

end NameService.Wire
