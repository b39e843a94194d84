import NameService.Wire.Governance
import NameService.Wire.Name
import NameService.Wire.Payment

/-
  The envelope of a transaction: fee, signatures, multisignature contracts, and
  one message out of 31.
-/

namespace NameService.Wire

structure PublicKey where
  ed25519 : Option Bytes
  deriving DecidableEq, Repr

instance : Message PublicKey where
  Row := Option Bytes × Unit
  layout := .field (.block 1) .done
  toRow m := (m.ed25519, ())
  ofRow := fun (ed25519, ()) => ⟨ed25519⟩

structure SignatureBytes where
  ed25519 : Option Bytes
  deriving DecidableEq, Repr

instance : Message SignatureBytes where
  Row := Option Bytes × Unit
  layout := .field (.block 1) .done
  toRow m := (m.ed25519, ())
  ofRow := fun (ed25519, ()) => ⟨ed25519⟩

/-- A signature with its key and the signer's sequence number. -/
structure Signature where
  sequence : Int64
  publicKey : Option PublicKey
  signature : Option SignatureBytes
  deriving DecidableEq, Repr

instance : Message Signature where
  Row := Int64 × Option PublicKey × Option SignatureBytes × Unit
  layout :=
    .field (.scalar 1 .int64) <|
    .field (.message 2) <|
    .field (.message 4) .done
  toRow m := (m.sequence, m.publicKey, m.signature, ())
  ofRow := fun (sequence, publicKey, signature, ()) => ⟨sequence, publicKey, signature⟩

/-- The message of a transaction. -/
inductive Body where
  | send (m : Send)
  | createEscrow (m : CreateEscrow)
  | releaseEscrow (m : ReleaseEscrow)
  | returnEscrow (m : Reference)
  | updateEscrowParties (m : UpdateEscrowParties)
  | createContract (m : CreateContract)
  | updateContract (m : UpdateContract)
  | registerUsername (m : UsernameTargets)
  | transferUsername (m : TransferUsername)
  | changeUsernameTargets (m : UsernameTargets)
  | createSwap (m : CreateSwap)
  | releaseSwap (m : ReleaseSwap)
  | returnSwap (m : Reference)
  | createProposal (m : CreateProposal)
  | deleteProposal (m : Reference)
  | vote (m : Vote)
  | tally (m : Reference)
  | updateAccountConfiguration (m : Update AccountConfiguration)
  | registerDomain (m : RegisterDomain)
  | replaceMessageFees (m : ReplaceMessageFees)
  | transferDomain (m : TransferDomain)
  | renewDomain (m : DomainReference)
  | deleteDomain (m : DomainReference)
  | registerAccount (m : RegisterAccount)
  | transferAccount (m : TransferAccount)
  | replaceTargets (m : ReplaceTargets)
  | deleteAccount (m : AccountReference)
  | flushDomain (m : DomainReference)
  | renewAccount (m : AccountReference)
  | addCertificate (m : AddCertificate)
  | deleteCertificate (m : DeleteCertificate)
  deriving DecidableEq, Repr

def Body.cases : List (Case Body) := [
  .message 51 .send fun | .send m => some m | _ => none,
  .message 52 .createEscrow fun | .createEscrow m => some m | _ => none,
  .message 53 .releaseEscrow fun | .releaseEscrow m => some m | _ => none,
  .message 54 .returnEscrow fun | .returnEscrow m => some m | _ => none,
  .message 55 .updateEscrowParties fun | .updateEscrowParties m => some m | _ => none,
  .message 56 .createContract fun | .createContract m => some m | _ => none,
  .message 57 .updateContract fun | .updateContract m => some m | _ => none,
  .message 61 .registerUsername fun | .registerUsername m => some m | _ => none,
  .message 62 .transferUsername fun | .transferUsername m => some m | _ => none,
  .message 63 .changeUsernameTargets fun | .changeUsernameTargets m => some m | _ => none,
  .message 70 .createSwap fun | .createSwap m => some m | _ => none,
  .message 71 .releaseSwap fun | .releaseSwap m => some m | _ => none,
  .message 72 .returnSwap fun | .returnSwap m => some m | _ => none,
  .message 73 .createProposal fun | .createProposal m => some m | _ => none,
  .message 74 .deleteProposal fun | .deleteProposal m => some m | _ => none,
  .message 75 .vote fun | .vote m => some m | _ => none,
  .message 76 .tally fun | .tally m => some m | _ => none,
  .message 81 .updateAccountConfiguration fun | .updateAccountConfiguration m => some m | _ => none,
  .message 82 .registerDomain fun | .registerDomain m => some m | _ => none,
  .message 83 .replaceMessageFees fun | .replaceMessageFees m => some m | _ => none,
  .message 84 .transferDomain fun | .transferDomain m => some m | _ => none,
  .message 85 .renewDomain fun | .renewDomain m => some m | _ => none,
  .message 86 .deleteDomain fun | .deleteDomain m => some m | _ => none,
  .message 87 .registerAccount fun | .registerAccount m => some m | _ => none,
  .message 88 .transferAccount fun | .transferAccount m => some m | _ => none,
  .message 89 .replaceTargets fun | .replaceTargets m => some m | _ => none,
  .message 90 .deleteAccount fun | .deleteAccount m => some m | _ => none,
  .message 91 .flushDomain fun | .flushDomain m => some m | _ => none,
  .message 92 .renewAccount fun | .renewAccount m => some m | _ => none,
  .message 93 .addCertificate fun | .addCertificate m => some m | _ => none,
  .message 94 .deleteCertificate fun | .deleteCertificate m => some m | _ => none]

structure Tx where
  fees : Option FeeInfo
  signatures : List Signature
  multisig : List Bytes
  body : Option Body
  deriving DecidableEq, Repr

instance : Message Tx where
  Row := Option FeeInfo × List Signature × List Bytes × Option Body × Unit
  layout :=
    .field (.message 1) <|
    .field (.messages 2) <|
    .field (.blocks 4) <|
    .field (.union Body.cases) .done
  toRow m := (m.fees, m.signatures, m.multisig, m.body, ())
  ofRow := fun (fees, signatures, multisig, body, ()) => ⟨fees, signatures, multisig, body⟩

end NameService.Wire
