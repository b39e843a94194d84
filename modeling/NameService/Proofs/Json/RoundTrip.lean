import NameService.Proofs.Json.Actions
import NameService.Transaction.Json

/-
  Transactions are read from JSON as they were written.

  A transaction and its operation share one object. No member of an operation has the name
  of one of the transaction's own (`Operation.lookup_reserved`), so that the fields of both
  are taken from the object as if the others were not there. What is proved:
    1. `Operation.takes` — the fields of an operation are taken from its members, kind by
       kind, also where those of a transaction stand beside them.
    2. `Transaction.read_toJson`, `Transaction.ofJson_toJson` — a transaction is read back,
       alone and inside a signed one.
    3. `SignedTransaction.json_roundTrip` — so is a signed transaction, and whatever is
       read is written in a form that is read alike.
-/

namespace NameService

open Json

/-! ## Parts -/

theorem Target.ofJson_toJson {chainMember : String} (hname : chainMember ≠ "address")
    (t : Target) : ofJson chainMember (t.toJson chainMember) = some t := by
  refine Takes.record ?_
  refine .bind (.required List.not_mem_nil List.lookup_cons_self rfl) ?_
  refine .bind (.required (j := .text t.address) List.not_mem_nil ?_ rfl) (.pure _)
  rw [lookup_cons_of_ne _ _ hname.symm]
  rfl

theorem Participant.ofJson_toJson (p : Participant) : ofJson p.toJson = some p := by
  refine Takes.record ?_
  refine .bind (.required List.not_mem_nil rfl rfl) ?_
  exact .bind (.required List.not_mem_nil rfl (readUInt32_ofUInt32 _)) (.pure _)

theorem MessageFee.ofJson_toJson (f : MessageFee) : ofJson f.toJson = some f := by
  refine Takes.record ?_
  refine .bind (.required List.not_mem_nil rfl rfl) ?_
  exact .bind (.required List.not_mem_nil rfl (Amount.ofJson_toJson _)) (.pure _)

theorem readTime_timeToJson (seconds : Int64) : readTime (timeToJson seconds) = some seconds :=
  Takes.record (.required List.not_mem_nil rfl (readInt64_ofInt64 seconds))

theorem Selection.readChoice_name (s : Selection) :
    readChoice all name isEmpty (.text s.name) = some s := by
  cases s <;> rfl

theorem ContractTerms.takes (t : ContractTerms) :
    Takes ("contractId" :: Transaction.reserved) t.members fields t := by
  refine .bind (.required (by decide) rfl (readList_ofList Participant.ofJson_toJson _)) ?_
  refine .bind (.required (by decide) rfl (readUInt32_ofUInt32 _)) ?_
  exact .bind (.required (by decide) rfl (readUInt32_ofUInt32 _)) (.pure _)

/-! ## Operations -/

namespace Operation

/-- The targets of a username, and those of an account. -/
theorem readTargets {chainMember : String} (hname : chainMember ≠ "address")
    (targets : List Target) :
    readList (Target.ofJson chainMember) (ofList (Target.toJson chainMember) targets) =
      some targets :=
  readList_ofList (Target.ofJson_toJson hname) targets

theorem takes (operation : Operation) :
    Takes Transaction.reserved operation.members (fields operation.kind) operation := by
  cases operation with
  | send transfer => exact .bind transfer.takes (.pure _)
  | swapOffer o =>
    refine .bind (.required (by decide) rfl rfl) ?_
    refine .bind (.required (by decide) rfl rfl) ?_
    refine .bind (.required (by decide) rfl (readList_ofList Amount.ofJson_toJson _)) ?_
    refine .bind (.required (by decide) rfl (readBytes_ofBytes _)) ?_
    refine .bind (.required (by decide) rfl (readTime_timeToJson _)) ?_
    refine .bind (.optionalText (o := o.memo) (by decide) ?_) (.pure _)
    simp [members, List.lookup_cons]
  | swapClaim swapId preimage =>
    refine .bind (.required (by decide) rfl (readBytes_ofBytes _)) ?_
    exact .bind (.required (by decide) rfl (readBytes_ofBytes _)) (.pure _)
  | swapAbort swapId => exact .bind (.required (by decide) rfl (readBytes_ofBytes _)) (.pure _)
  | registerUsername username targets =>
    refine .bind (.required (by decide) rfl rfl) ?_
    exact .bind (.required (by decide) rfl (readTargets (by decide) _)) (.pure _)
  | updateUsernameTargets username targets =>
    refine .bind (.required (by decide) rfl rfl) ?_
    exact .bind (.required (by decide) rfl (readTargets (by decide) _)) (.pure _)
  | transferUsername username newOwner =>
    refine .bind (.required (by decide) rfl rfl) ?_
    exact .bind (.required (by decide) rfl rfl) (.pure _)
  | updateAccountConfiguration c =>
    have hrecord : readRecord AccountConfiguration.fields (.object c.members) = some c :=
      Takes.record (c.takes.beside (by simp) fun _ _ => rfl)
    exact .bind (.required (by decide) rfl hrecord) (.pure _)
  | registerDomain r =>
    refine .bind (.required (by decide) rfl rfl) ?_
    refine .bind (.required (by decide) rfl rfl) ?_
    refine .bind (.required (by decide) rfl rfl) ?_
    refine .bind (.optionalText (o := r.broker) (by decide) ?_) ?_
    · simp [members, List.lookup_cons, List.lookup_append]
    refine .bind (.required (by decide) ?_ (readList_ofList MessageFee.ofJson_toJson
      r.messageFees)) ?_
    · simp [members, List.lookup_cons, List.lookup_append]
    refine .bind (.required (by decide) ?_ (readInt64_ofInt64 _)) (.pure _)
    simp [members, List.lookup_cons, List.lookup_append]
  | transferDomain domain newAdmin =>
    refine .bind (.required (by decide) rfl rfl) ?_
    exact .bind (.required (by decide) rfl rfl) (.pure _)
  | renewDomain domain => exact .bind (.required (by decide) rfl rfl) (.pure _)
  | deleteDomain domain => exact .bind (.required (by decide) rfl rfl) (.pure _)
  | registerAccount r =>
    refine .bind (.required (by decide) rfl rfl) ?_
    refine .bind (.required (by decide) rfl rfl) ?_
    refine .bind (.required (by decide) rfl rfl) ?_
    refine .bind (.required (by decide) rfl (readTargets (by decide) _)) ?_
    refine .bind (.optionalText (o := r.broker) (by decide) ?_) (.pure _)
    simp [members, List.lookup_cons]
  | transferAccount domain name newOwner =>
    refine .bind (.required (by decide) rfl rfl) ?_
    refine .bind (.required (by decide) rfl rfl) ?_
    exact .bind (.required (by decide) rfl rfl) (.pure _)
  | replaceAccountTargets domain name newTargets =>
    refine .bind (.required (by decide) rfl rfl) ?_
    refine .bind (.required (by decide) rfl rfl) ?_
    exact .bind (.required (by decide) rfl (readTargets (by decide) _)) (.pure _)
  | deleteAccount domain name =>
    refine .bind (.required (by decide) rfl rfl) ?_
    exact .bind (.required (by decide) rfl rfl) (.pure _)
  | deleteAllAccounts domain => exact .bind (.required (by decide) rfl rfl) (.pure _)
  | renewAccount domain name =>
    refine .bind (.required (by decide) rfl rfl) ?_
    exact .bind (.required (by decide) rfl rfl) (.pure _)
  | addAccountCertificate domain name certificate =>
    refine .bind (.required (by decide) rfl rfl) ?_
    refine .bind (.required (by decide) rfl rfl) ?_
    exact .bind (.required (by decide) rfl (readBytes_ofBytes _)) (.pure _)
  | replaceAccountMessageFees domain newMessageFees =>
    refine .bind (.required (by decide) rfl rfl) ?_
    exact .bind (.required (by decide) rfl (readList_ofList MessageFee.ofJson_toJson _)) (.pure _)
  | deleteAccountCertificate domain name certificateHash =>
    refine .bind (.required (by decide) rfl rfl) ?_
    refine .bind (.required (by decide) rfl rfl) ?_
    exact .bind (.required (by decide) rfl (readBytes_ofBytes _)) (.pure _)
  | createContract terms =>
    exact .bind (terms.takes.beside (by decide) fun _ _ => rfl) (.pure _)
  | updateContract contractId terms =>
    refine .bind (.required (by decide) rfl (readId_ofId _)) ?_
    refine .bind (terms.takes.beside (by decide) fun name hname => ?_) (.pure _)
    -- the id stands in front of the terms, under a name that is none of theirs
    exact lookup_cons_of_ne _ _ (List.ne_of_not_mem_cons hname)
  | createEscrow e =>
    refine .bind (.required (by decide) rfl rfl) ?_
    refine .bind (.required (by decide) rfl rfl) ?_
    refine .bind (.required (by decide) rfl rfl) ?_
    refine .bind (.required (by decide) rfl (readList_ofList Amount.ofJson_toJson _)) ?_
    refine .bind (.required (by decide) rfl (readTime_timeToJson _)) ?_
    refine .bind (.optionalText (o := e.memo) (by decide) ?_) (.pure _)
    simp [members, List.lookup_cons]
  | releaseEscrow escrowId amounts =>
    refine .bind (.required (by decide) rfl (readId_ofId _)) ?_
    exact .bind (.required (by decide) rfl (readList_ofList Amount.ofJson_toJson _)) (.pure _)
  | returnEscrow escrowId => exact .bind (.required (by decide) rfl (readId_ofId _)) (.pure _)
  | updateEscrowParties p =>
    refine .bind (.required (by decide) rfl (readId_ofId _)) ?_
    refine .bind (.optionalText (o := p.sender) (by decide) ?_) ?_
    · simp [members, List.lookup_cons, List.lookup_append]
    refine .bind (.optionalText (o := p.arbiter) (by decide) ?_) ?_
    · simp [members, List.lookup_cons, List.lookup_append]
    refine .bind (.optionalText (o := p.recipient) (by decide) ?_) (.pure _)
    simp [members, List.lookup_cons, List.lookup_append]
  | createProposal p =>
    refine .bind (.required (by decide) rfl rfl) ?_
    refine .bind (.required (by decide) rfl (Action.ofJson_toJson true _)) ?_
    refine .bind (.required (by decide) rfl rfl) ?_
    refine .bind (.required (by decide) rfl (readId_ofId _)) ?_
    refine .bind (.required (by decide) rfl (readInt64_ofInt64 _)) ?_
    exact .bind (.required (by decide) rfl rfl) (.pure _)
  | vote v =>
    refine .bind (.required (by decide) rfl (readId_ofId _)) ?_
    refine .bind (.required (by decide) rfl (Selection.readChoice_name _)) ?_
    refine .bind (.optionalText (o := v.voter) (by decide) ?_) (.pure _)
    simp [members, List.lookup_cons]

/-- The members of an operation, and those of a transaction beside them, have names of
their own. -/
theorem nodup_names (operation : Operation) :
    (Transaction.reserved ++ operation.members.map Prod.fst).Nodup := by
  cases operation with
  | send t =>
    cases h : t.memo <;> simp [Transaction.reserved, members, Transfer.members, h, Json.optional]
  | swapOffer o => cases h : o.memo <;> simp [Transaction.reserved, members, h, Json.optional]
  | registerDomain r =>
    cases h : r.broker <;> simp [Transaction.reserved, members, h, Json.optional]
  | registerAccount r =>
    cases h : r.broker <;> simp [Transaction.reserved, members, h, Json.optional]
  | createEscrow e => cases h : e.memo <;> simp [Transaction.reserved, members, h, Json.optional]
  | updateEscrowParties p =>
    obtain ⟨escrowId, sender, arbiter, recipient⟩ := p
    cases sender <;> cases arbiter <;> cases recipient <;>
      simp [Transaction.reserved, members, Json.optional]
  | vote v => cases h : v.voter <;> simp [Transaction.reserved, members, h, Json.optional]
  | createContract t => simp [Transaction.reserved, members, ContractTerms.members]
  | updateContract id t => simp [Transaction.reserved, members, ContractTerms.members]
  | _ => simp [Transaction.reserved, members]

theorem lookup_reserved (operation : Operation) {name : String}
    (hname : name ∈ Transaction.reserved) : operation.members.lookup name = none := by
  obtain ⟨-, -, hdisjoint⟩ := List.nodup_append.mp operation.nodup_names
  exact lookup_of_notMem fun hmem => hdisjoint name hname name hmem rfl

theorem Kind.ofName?_name (kind : Kind) : ofName? kind.name = some kind := by
  cases kind <;> rfl

end Operation

/-! ## Transactions -/

theorem Fee.ofJson_toJson (fee : Fee) : ofJson fee.toJson = some fee := by
  refine Takes.record ?_
  refine .bind (.optionalField Amount.toJson fee.tokens List.not_mem_nil ?_
    Amount.ofJson_toJson rfl) ?_
  · simp [List.lookup_append]
  refine .bind (.optionalText (o := fee.payer) List.not_mem_nil ?_) (.pure _)
  simp [List.lookup_append]

namespace Transaction

/-- The members of a transaction in front of those of its operation. -/
def ownMembers (tx : Transaction) : List (String × Json) :=
  ("chainId", .text tx.chainId) :: Json.optional "fee" (tx.fee.map Fee.toJson) ++
    (if tx.multisig.isEmpty then [] else [("multisig", ofList ofId tx.multisig)]) ++
    [("kind", .text tx.operation.kind.name)]

theorem toJson_eq (tx : Transaction) :
    tx.toJson = .object (tx.ownMembers ++ tx.operation.members) := by
  simp [toJson, ownMembers]

theorem sublist_reserved (tx : Transaction) :
    (tx.ownMembers.map Prod.fst).Sublist reserved := by
  cases hfee : tx.fee <;> cases hmultisig : tx.multisig.isEmpty <;>
    simp [ownMembers, reserved, hfee, hmultisig, Json.optional]

theorem nodup_names (tx : Transaction) :
    ((tx.ownMembers ++ tx.operation.members).map Prod.fst).Nodup := by
  rw [List.map_append]
  exact tx.operation.nodup_names.sublist (tx.sublist_reserved.append_right _)

theorem lookup_kind (tx : Transaction) :
    (tx.ownMembers ++ tx.operation.members).lookup "kind" =
      some (.text tx.operation.kind.name) := by
  cases hmultisig : tx.multisig.isEmpty <;>
    simp [ownMembers, hmultisig, List.lookup_cons, List.lookup_append]

theorem takes (tx : Transaction) :
    Takes [] (tx.ownMembers ++ tx.operation.members) (fields tx.operation.kind) tx := by
  have hfee : tx.operation.members.lookup "fee" = none := tx.operation.lookup_reserved (by decide)
  have hmultisig : tx.operation.members.lookup "multisig" = none :=
    tx.operation.lookup_reserved (by decide)
  refine .bind (.required List.not_mem_nil rfl rfl) ?_
  refine .bind (.optionalField Fee.toJson tx.fee List.not_mem_nil ?_ Fee.ofJson_toJson rfl) ?_
  · cases h : tx.multisig.isEmpty <;>
      simp [ownMembers, h, hfee, List.lookup_cons, List.lookup_append]
  have hcontracts : Takes [] (tx.ownMembers ++ tx.operation.members)
      (defaulted "multisig" [] (readList readId)) tx.multisig := by
    cases h : tx.multisig with
    | nil =>
      refine .defaulted_none List.not_mem_nil ?_
      simp [ownMembers, h, hmultisig, List.lookup_cons, List.lookup_append]
    | cons id ids =>
      refine .defaulted List.not_mem_nil ?_ (readList_ofList readId_ofId (id :: ids))
      simp [ownMembers, h, List.lookup_cons, List.lookup_append]
  refine .bind hcontracts (.bind (tx.operation.takes.beside (List.nil_subset _) ?_) (.pure _))
  -- what is not reserved is not one of the transaction's own
  intro name hname
  have hown : tx.ownMembers.lookup name = none :=
    lookup_of_notMem fun hmem => hname (tx.sublist_reserved.subset hmem)
  rw [List.lookup_append, hown, Option.none_or]

theorem read_toJson (tx : Transaction) : read tx.toJson = some tx := by
  have hkind : readKind Operation.Kind.all Operation.Kind.name true
      (.text tx.operation.kind.name) = some tx.operation.kind :=
    Operation.Kind.ofName?_name tx.operation.kind
  rw [toJson_eq, read, tx.lookup_kind]
  show (readKind Operation.Kind.all Operation.Kind.name true _ >>= _) = some tx
  rw [hkind]
  exact tx.takes.read fun _ _ => rfl

theorem ofJson_toJson (tx : Transaction) : ofJson tx.toJson = .ok tx := by
  have hfields : (Fields.named (tx.ownMembers ++ tx.operation.members)).read
      (fields tx.operation.kind) = some tx :=
    tx.takes.read fun _ _ => rfl
  simp only [toJson_eq, ofJson, tx.lookup_kind, Operation.Kind.ofName?_name, hfields]

end Transaction

/-! ## Signed transactions -/

theorem PublicKey.ofJson_toJson (k : PublicKey) : ofJson k.toJson = some k := by
  have halgorithm : readChoice [.ed25519, .secp256k1] Algorithm.name isNull
      (.text k.algorithm.name) = some k.algorithm := by
    cases k.algorithm <;> rfl
  refine Takes.record ?_
  refine .bind (.required List.not_mem_nil rfl halgorithm) ?_
  exact .bind (.required List.not_mem_nil rfl (readBytes_ofBytes _)) (.pure _)

theorem Signature.ofJson_toJson (s : Signature) : ofJson s.toJson = some s := by
  refine Takes.record ?_
  refine .bind (.required List.not_mem_nil rfl (readInt64_ofInt64 _)) ?_
  refine .bind (.required List.not_mem_nil rfl (PublicKey.ofJson_toJson _)) ?_
  exact .bind (.required List.not_mem_nil rfl (readBytes_ofBytes _)) (.pure _)

namespace SignedTransaction

theorem ofJson_toJson (s : SignedTransaction) : ofJson s.toJson = some s := by
  refine Takes.record ?_
  refine .bind (.required List.not_mem_nil rfl (Transaction.read_toJson _)) ?_
  refine .bind (.required List.not_mem_nil rfl (Signature.ofJson_toJson _)) ?_
  exact .bind (.defaulted List.not_mem_nil rfl (readList_ofList Signature.ofJson_toJson _))
    (.pure _)

/-- A transaction is read back from the object that it is written as, in which no name stands
twice and the kind is the one of its operation. A signed transaction is read back, too. So
whatever is read as a transaction is written as something that is read as the same one. -/
theorem json_roundTrip :
    (∀ tx : Transaction, Transaction.ofJson tx.toJson = .ok tx ∧
      ∃ members, tx.toJson = .object members ∧ (members.map Prod.fst).Nodup ∧
        members.lookup "kind" = some (.text tx.operation.kind.name)) ∧
    (∀ s : SignedTransaction, ofJson s.toJson = some s) ∧
    ∀ j, (Transaction.ofJson j >>= fun tx => Transaction.ofJson tx.toJson) =
      Transaction.ofJson j := by
  refine ⟨fun tx => ?_, ofJson_toJson, fun j => ?_⟩
  · exact ⟨tx.ofJson_toJson, _, tx.toJson_eq, tx.nodup_names, tx.lookup_kind⟩
  · cases Transaction.ofJson j with
    | error e => rfl
    | ok tx => exact tx.ofJson_toJson

end SignedTransaction

end NameService
