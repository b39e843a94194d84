import NameService.Operation.Json
import NameService.Transaction.Signing

/-
  The JSON forms of transactions, signatures and options.

  A transaction is one object: its own members, the tag `kind` of its
  operation, and the operation's members beside them.
-/

namespace NameService

open Json

namespace Fee

def toJson (fee : Fee) : Json :=
  .object (Json.optional "tokens" (fee.tokens.map Amount.toJson) ++
    Json.optional "payer" (fee.payer.map .text))

def ofJson : Reader Fee :=
  readRecord do
    let tokens ← optionalField "tokens" Amount.ofJson
    let payer ← optionalField "payer" readText
    return ⟨tokens, payer⟩

end Fee

namespace Transaction

/-- Writes a transaction. No contract is written as no member. -/
def toJson (tx : Transaction) : Json :=
  .object (("chainId", .text tx.chainId) ::
    Json.optional "fee" (tx.fee.map Fee.toJson) ++
    (if tx.multisig.isEmpty then [] else [("multisig", ofList ofId tx.multisig)]) ++
    ("kind", .text tx.operation.kind.name) :: tx.operation.members)

def fields (kind : Operation.Kind) : FieldReader Transaction := do
  let chainId ← required "chainId" readText
  let fee ← optionalField "fee" Fee.ofJson
  let multisig ← defaulted "multisig" [] (readList readId)
  let operation ← Operation.fields kind
  return ⟨chainId, fee, multisig, operation⟩

/-- Reads a transaction inside another record, where its kind may be numbered. -/
def read : Reader Transaction
  | .object members => do
    let tag ← members.lookup "kind"
    let kind ← readKind Operation.Kind.all Operation.Kind.name true tag
    (Fields.named members).read (fields kind)
  | _ => none

/-- Reads a transaction. That it names a kind, and one that is handled, is
checked before anything else. -/
def ofJson (j : Json) : Except Error Transaction :=
  match j with
  | .object members =>
    match members.lookup "kind" with
    | some (.text name) =>
      match Operation.Kind.ofName? name with
      | none => .error (.unsupported (.transactionKind name))
      | some kind =>
        match (Fields.named members).read (fields kind) with
        | none => .error .malformedValue
        | some tx => .ok tx
    | _ => .error (.missing "kind")
  | _ => .error (.missing "kind")

end Transaction

namespace PublicKey

def toJson (k : PublicKey) : Json :=
  .object [("algo", .text k.algorithm.name), ("data", ofBytes k.data)]

def ofJson : Reader PublicKey :=
  readRecord do
    let algorithm ← required "algo" (readChoice [.ed25519, .secp256k1] Algorithm.name isNull)
    let data ← required "data" readBytes
    return ⟨algorithm, data⟩

end PublicKey

namespace Signature

def toJson (s : Signature) : Json :=
  .object [("nonce", ofInt64 s.nonce), ("pubkey", s.publicKey.toJson),
    ("signature", ofBytes s.signature)]

def ofJson : Reader Signature :=
  readRecord do
    let nonce ← required "nonce" readInt64
    let publicKey ← required "pubkey" PublicKey.ofJson
    let signature ← required "signature" readBytes
    return ⟨nonce, publicKey, signature⟩

end Signature

namespace SignedTransaction

def toJson (s : SignedTransaction) : Json :=
  .object [("transaction", s.transaction.toJson),
    ("primarySignature", s.primarySignature.toJson),
    ("otherSignatures", ofList Signature.toJson s.otherSignatures)]

def ofJson : Reader SignedTransaction :=
  readRecord do
    let transaction ← required "transaction" Transaction.read
    let primarySignature ← required "primarySignature" Signature.ofJson
    let otherSignatures ← defaulted "otherSignatures" [] (readList Signature.ofJson)
    return ⟨transaction, primarySignature, otherSignatures⟩

end SignedTransaction

namespace SigningJob

def toJson (job : SigningJob) : Json :=
  .object [("bytes", ofBytes job.bytes), ("prehashType", .text job.prehash.name)]

end SigningJob

namespace EncodingOptions

def toJson (options : EncodingOptions) : Json :=
  .object [("strictMode", .bool options.strict)]

/-- Reads options; what is not given is strict. -/
def ofJson : Reader EncodingOptions :=
  readRecord do
    let strict ← defaulted "strictMode" true readBool
    return ⟨strict⟩

end EncodingOptions

end NameService
