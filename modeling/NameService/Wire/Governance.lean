import NameService.Wire.Coin

/-
  Messages by which a group decides: multisignature contracts, votes, and what
  a vote can change in electorates, election rules, validators and schemas.
-/

namespace NameService.Wire

/-! ## Multisignature contracts -/

/-- A participant of a contract. The address has the name that the schema of
the chain gives it. -/
structure Participant where
  signature : Bytes
  weight : UInt32
  deriving DecidableEq, Repr

instance : Message Participant where
  Row := Bytes × UInt32 × Unit
  layout :=
    .field (.scalar 1 .bytes) <|
    .field (.scalar 2 .uint32) .done
  toRow m := (m.signature, m.weight, ())
  ofRow := fun (signature, weight, ()) => ⟨signature, weight⟩

structure CreateContract where
  metadata : Option Metadata
  participants : List Participant
  activationThreshold : UInt32
  adminThreshold : UInt32
  deriving DecidableEq, Repr

instance : Message CreateContract where
  Row := Option Metadata × List Participant × UInt32 × UInt32 × Unit
  layout :=
    .field (.message 1) <|
    .field (.messages 2) <|
    .field (.scalar 3 .uint32) <|
    .field (.scalar 4 .uint32) .done
  toRow m := (m.metadata, m.participants, m.activationThreshold, m.adminThreshold, ())
  ofRow := fun (metadata, participants, activationThreshold, adminThreshold, ()) =>
    ⟨metadata, participants, activationThreshold, adminThreshold⟩

structure UpdateContract where
  metadata : Option Metadata
  contractId : Bytes
  participants : List Participant
  activationThreshold : UInt32
  adminThreshold : UInt32
  deriving DecidableEq, Repr

instance : Message UpdateContract where
  Row := Option Metadata × Bytes × List Participant × UInt32 × UInt32 × Unit
  layout :=
    .field (.message 1) <|
    .field (.scalar 2 .bytes) <|
    .field (.messages 3) <|
    .field (.scalar 4 .uint32) <|
    .field (.scalar 5 .uint32) .done
  toRow m :=
    (m.metadata, m.contractId, m.participants, m.activationThreshold, m.adminThreshold, ())
  ofRow := fun (metadata, contractId, participants, activationThreshold, adminThreshold, ()) =>
    ⟨metadata, contractId, participants, activationThreshold, adminThreshold⟩

/-! ## Proposals and votes -/

/-- A new proposal. The action stands in it as the bytes of a message of its
own. -/
structure CreateProposal where
  metadata : Option Metadata
  title : String
  rawOption : Bytes
  description : String
  electionRuleId : Bytes
  startTime : Int64
  author : Bytes
  deriving DecidableEq, Repr

instance : Message CreateProposal where
  Row := Option Metadata × String × Bytes × String × Bytes × Int64 × Bytes × Unit
  layout :=
    .field (.message 1) <|
    .field (.scalar 2 .text) <|
    .field (.scalar 3 .bytes) <|
    .field (.scalar 4 .text) <|
    .field (.scalar 5 .bytes) <|
    .field (.scalar 6 .int64) <|
    .field (.scalar 7 .bytes) .done
  toRow m :=
    (m.metadata, m.title, m.rawOption, m.description, m.electionRuleId, m.startTime, m.author, ())
  ofRow := fun (metadata, title, rawOption, description, electionRuleId, startTime, author, ()) =>
    ⟨metadata, title, rawOption, description, electionRuleId, startTime, author⟩

/-- A vote; the selection is the number of a choice. -/
structure Vote where
  metadata : Option Metadata
  proposalId : Bytes
  voter : Bytes
  selected : Int32
  deriving DecidableEq, Repr

instance : Message Vote where
  Row := Option Metadata × Bytes × Bytes × Int32 × Unit
  layout :=
    .field (.message 1) <|
    .field (.scalar 2 .bytes) <|
    .field (.scalar 3 .bytes) <|
    .field (.scalar 4 .int32) .done
  toRow m := (m.metadata, m.proposalId, m.voter, m.selected, ())
  ofRow := fun (metadata, proposalId, voter, selected, ()) =>
    ⟨metadata, proposalId, voter, selected⟩

/-! ## What a vote can change -/

structure TextResolution where
  metadata : Option Metadata
  resolution : String
  deriving DecidableEq, Repr

instance : Message TextResolution where
  Row := Option Metadata × String × Unit
  layout :=
    .field (.message 1) <|
    .field (.scalar 2 .text) .done
  toRow m := (m.metadata, m.resolution, ())
  ofRow := fun (metadata, resolution, ()) => ⟨metadata, resolution⟩

/-- An elector and the weight of the elector's vote. -/
structure Elector where
  address : Bytes
  weight : UInt32
  deriving DecidableEq, Repr

instance : Message Elector where
  Row := Bytes × UInt32 × Unit
  layout :=
    .field (.scalar 1 .bytes) <|
    .field (.scalar 2 .uint32) .done
  toRow m := (m.address, m.weight, ())
  ofRow := fun (address, weight, ()) => ⟨address, weight⟩

structure UpdateElectorate where
  metadata : Option Metadata
  electorateId : Bytes
  diffElectors : List Elector
  deriving DecidableEq, Repr

instance : Message UpdateElectorate where
  Row := Option Metadata × Bytes × List Elector × Unit
  layout :=
    .field (.message 1) <|
    .field (.scalar 2 .bytes) <|
    .field (.messages 3) .done
  toRow m := (m.metadata, m.electorateId, m.diffElectors, ())
  ofRow := fun (metadata, electorateId, diffElectors, ()) =>
    ⟨metadata, electorateId, diffElectors⟩

structure Fraction where
  numerator : UInt32
  denominator : UInt32
  deriving DecidableEq, Repr

instance : Message Fraction where
  Row := UInt32 × UInt32 × Unit
  layout :=
    .field (.scalar 1 .uint32) <|
    .field (.scalar 2 .uint32) .done
  toRow m := (m.numerator, m.denominator, ())
  ofRow := fun (numerator, denominator, ()) => ⟨numerator, denominator⟩

structure UpdateElectionRule where
  metadata : Option Metadata
  electionRuleId : Bytes
  votingPeriod : UInt32
  threshold : Option Fraction
  quorum : Option Fraction
  deriving DecidableEq, Repr

instance : Message UpdateElectionRule where
  Row := Option Metadata × Bytes × UInt32 × Option Fraction × Option Fraction × Unit
  layout :=
    .field (.message 1) <|
    .field (.scalar 2 .bytes) <|
    .field (.scalar 3 .uint32) <|
    .field (.message 4) <|
    .field (.message 5) .done
  toRow m := (m.metadata, m.electionRuleId, m.votingPeriod, m.threshold, m.quorum, ())
  ofRow := fun (metadata, electionRuleId, votingPeriod, threshold, quorum, ()) =>
    ⟨metadata, electionRuleId, votingPeriod, threshold, quorum⟩

/-- The key of a validator, with the name of its scheme. -/
structure ValidatorKey where
  type : String
  data : Bytes
  deriving DecidableEq, Repr

instance : Message ValidatorKey where
  Row := String × Bytes × Unit
  layout :=
    .field (.scalar 1 .text) <|
    .field (.scalar 2 .bytes) .done
  toRow m := (m.type, m.data, ())
  ofRow := fun (type, data, ()) => ⟨type, data⟩

structure ValidatorUpdate where
  publicKey : Option ValidatorKey
  power : Int64
  deriving DecidableEq, Repr

instance : Message ValidatorUpdate where
  Row := Option ValidatorKey × Int64 × Unit
  layout :=
    .field (.message 1) <|
    .field (.scalar 2 .int64) .done
  toRow m := (m.publicKey, m.power, ())
  ofRow := fun (publicKey, power, ()) => ⟨publicKey, power⟩

/-- The change of the validators. -/
structure ApplyDiff where
  metadata : Option Metadata
  validatorUpdates : List ValidatorUpdate
  deriving DecidableEq, Repr

instance : Message ApplyDiff where
  Row := Option Metadata × List ValidatorUpdate × Unit
  layout :=
    .field (.message 1) <|
    .field (.messages 2) .done
  toRow m := (m.metadata, m.validatorUpdates, ())
  ofRow := fun (metadata, validatorUpdates, ()) => ⟨metadata, validatorUpdates⟩

structure UpgradeSchema where
  metadata : Option Metadata
  package : String
  toVersion : UInt32
  deriving DecidableEq, Repr

instance : Message UpgradeSchema where
  Row := Option Metadata × String × UInt32 × Unit
  layout :=
    .field (.message 1) <|
    .field (.scalar 2 .text) <|
    .field (.scalar 3 .uint32) .done
  toRow m := (m.metadata, m.package, m.toVersion, ())
  ofRow := fun (metadata, package, toVersion, ()) => ⟨metadata, package, toVersion⟩

structure ExecuteMigration where
  metadata : Option Metadata
  migrationId : String
  deriving DecidableEq, Repr

instance : Message ExecuteMigration where
  Row := Option Metadata × String × Unit
  layout :=
    .field (.message 1) <|
    .field (.scalar 2 .text) .done
  toRow m := (m.metadata, m.migrationId, ())
  ofRow := fun (metadata, migrationId, ()) => ⟨metadata, migrationId⟩

end NameService.Wire
