import NameService.Proofs.Acceptance
import NameService.Proofs.Ensures
import NameService.Proofs.RoundTrip
import NameService.Proofs.Wire.Rules

/-
  Whatever is written obeys the rules of the chain.

  Each message is filled in by a writer of its own, so the rules are proved writer by
  writer: what a writer makes sure of is put together from what it has been made sure of
  about its fields. What is proved:
    1. `X.ensures` — the fields of the message that a writer gives are valid.
    2. `Operation.ensures_obeys` — so are the rules about parties, actions, usernames and
       voters.
    3. `SignedTransaction.obeys_of_encode` — the bytes of a signed transaction are those
       of an envelope that obeys all rules, however strict the writer is.
-/

namespace NameService

open Result Wire

variable {network : Network} {strict : Bool}

/-! ## Fields -/

@[simp] theorem Wire.allValid_nil : AllValid [] :=
  nofun

@[simp] theorem Wire.allValid_cons {part : Part} {parts : List Part} :
    AllValid (part :: parts) ↔ part.Valid ∧ AllValid parts :=
  List.forall_mem_cons

@[simp] theorem Wire.allValid_append {parts parts' : List Part} :
    AllValid (parts ++ parts') ↔ AllValid parts ∧ AllValid parts' :=
  List.forall_mem_append

@[simp] theorem Wire.allValid_map {α : Type} {f : α → Part} {as : List α} :
    AllValid (as.map f) ↔ ∀ a ∈ as, (f a).Valid :=
  List.forall_mem_map

@[simp] theorem Wire.allValid_flatMap {α : Type} {f : α → List Part} {as : List α} :
    AllValid (as.flatMap f) ↔ ∀ a ∈ as, AllValid (f a) :=
  List.forall_mem_flatMap

@[simp] theorem Wire.valid_header : (Part.header Wire.header).Valid :=
  rfl

@[simp] theorem Wire.valid_given : (Part.given true).Valid :=
  rfl

@[simp] theorem Id.valid_encode (id : UInt64) : (Part.id (Id.encode id)).Valid :=
  Bytes.length_bigEndian 8 id.toNat

theorem Address.ensures (network : Network) (text : String) :
    Ensures (decodeFor network text) fun hash => (Part.address hash).Valid :=
  fun _ h => length_of_decodeFor h

/-- An address that may be absent is written as an empty byte string if it is. -/
theorem Address.ensures? (network : Network) (o : Option String) :
    Ensures (decodeFor? network o) fun hash =>
      (Part.optionalAddress hash).Valid ∧ hash.isEmpty = o.isNone := by
  intro hash h
  cases o with
  | none =>
    obtain rfl := Except.ok.inj h
    exact ⟨.inl rfl, rfl⟩
  | some text =>
    have hlength : hash.length = 20 := length_of_decodeFor h
    refine ⟨.inr hlength, ?_⟩
    cases hash with
    | nil => cases hlength
    | cons b bs => rfl

theorem Amount.ensures (a : Amount) : Ensures a.toCoin fun c => (Part.coin c).Valid := by
  intro c h
  obtain ⟨-, n, -, hlt, rfl⟩ := toCoin_eq_ok.mp h
  have hunit : unit = 10 ^ 9 := rfl
  have hrest : n % unit < unit := Nat.mod_lt n (by decide)
  obtain ⟨hwhole, hfractional⟩ := toInt_parts hlt
  constructor
  · rw [hwhole]
    exact Int.natCast_nonneg _
  · rw [hwhole]
    omega
  · rw [hfractional]
    exact Int.natCast_nonneg _
  · rw [hfractional]
    omega

theorem Memo.ensures (memo : Option String) :
    Ensures (Memo.encode memo) fun text => (Part.memo text).Valid := by
  intro text h
  rw [Memo.encode] at h
  split at h
  · next hle => exact Except.ok.inj h ▸ hle
  · cases h

theorem Fraction.ensures (f : Fraction) : Ensures f.toWire fun m => (Part.fraction m).Valid := by
  have hcheck : Ensures f.check fun g => g.denominator ≠ 0 := by
    intro g hg
    rw [check] at hg
    split at hg
    · cases hg
    · next hne => exact Except.ok.inj hg ▸ hne
  exact hcheck.bind fun g hg => .pure hg

theorem Check.ensures_present (field : String) (bs : Bytes) :
    Ensures (present field bs) fun bs => (Part.filled bs).Valid :=
  fun _ h => (present_eq_ok.mp h).2 ▸ (present_eq_ok.mp h).1

theorem Check.ensures_exactly (field : String) (length : Nat) (bs : Bytes) :
    Ensures (exactly field length bs) fun bs => bs.length = length :=
  fun _ h => (exactly_eq_ok.mp h).2 ▸ (exactly_eq_ok.mp h).1

theorem Validator.ensures (updates : SortedMap Int64) :
    Ensures (updatesToWire updates) fun ms => ∀ m ∈ ms, (Part.validator m.publicKey).Valid := by
  refine Ensures.mapM (fun e => ?_) updates.entries
  have hkey : Ensures (ofName e.1) fun key => key.length = 32 := fun _ h => (name_of_ofName h).2
  exact hkey.bind fun key hlength => .pure ⟨key, rfl, hlength⟩

theorem Elector.ensures (electors : SortedMap UInt32) :
    Ensures (updatesToWire network electors) fun ms =>
      ∀ m ∈ ms, (Part.address m.address).Valid := by
  refine Ensures.mapM (fun e => ?_) electors.entries
  exact (Address.ensures network e.1).bind fun address haddress => .pure haddress

theorem MessageFee.ensures (fees : List MessageFee) :
    Ensures (fees.mapM toWire) fun ms => ∀ m ∈ ms, AllValid m.parts := by
  refine Ensures.mapM (fun f => ?_) fees
  exact (Amount.ensures f.fee).bind fun coin hcoin => .pure (by simp [Wire.MessageFee.parts, hcoin])

theorem Participant.ensures (ps : List Participant) :
    Ensures (listToWire network ps) fun ms => ∀ m ∈ ms, (Part.address m.signature).Valid := by
  refine Ensures.mapM (fun p => ?_) ps
  exact (Address.ensures network p.address).bind fun signature hsignature => .pure hsignature

/-! ## Actions -/

theorem Transfer.ensures (t : Transfer) :
    Ensures (t.toWire network) fun m => AllValid m.parts := by
  refine (Address.ensures network t.sender).bind fun source hsource => ?_
  refine (Address.ensures network t.recipient).bind fun destination hdestination => ?_
  refine (Amount.ensures t.amount).bind fun coin hcoin => ?_
  refine (Memo.ensures t.memo).bind fun memo hmemo => .pure ?_
  simp [Send.parts, hsource, hdestination, hcoin, hmemo]

theorem AccountConfiguration.ensures (c : AccountConfiguration) :
    Ensures (c.toUpdate network) fun m => AllValid (m.parts Wire.AccountConfiguration.parts) := by
  have hpatch : Ensures (c.toWire network) fun m => AllValid m.parts :=
    (Address.ensures network c.owner).bind fun owner howner =>
      .pure (by simp [Wire.AccountConfiguration.parts, howner])
  exact hpatch.bind fun patch h => .pure (by simp [Update.parts, h])

theorem Measure.ensures (measure : Measure) :
    Ensures (measure.toWire network) fun w => AllValid w.parts := by
  cases measure with
  | textResolution resolution => exact .pure (by simp [ProposalOption.parts, TextResolution.parts])
  | releaseEscrow escrowId amount =>
    refine (Amount.ensures amount).bind fun coin hcoin => .pure ?_
    simp [ProposalOption.parts, ReleaseEscrow.parts, hcoin]
  | send transfer => exact (Transfer.ensures transfer).bind fun m hm => .pure hm
  | setValidators updates =>
    refine (Validator.ensures updates).bind fun ms hms => .pure ?_
    simpa [ProposalOption.parts, ApplyDiff.parts] using hms
  | updateElectionRule rule =>
    refine (Ensures.optionally Fraction.ensures rule.threshold).bind fun threshold hthreshold => ?_
    refine (Ensures.optionally Fraction.ensures rule.quorum).bind fun quorum hquorum => .pure ?_
    simpa [ProposalOption.parts, UpdateElectionRule.parts] using ⟨hthreshold, hquorum⟩
  | updateElectorate electorateId electors =>
    refine (Elector.ensures electors).bind fun ms hms => .pure ?_
    simpa [ProposalOption.parts, UpdateElectorate.parts] using hms
  | setMessageFee path fee =>
    refine (Amount.ensures fee).bind fun coin hcoin => .pure ?_
    simp [ProposalOption.parts, SetMessageFee.parts, hcoin]
  | executeMigration id =>
    refine Ensures.guard fun hne _ => .pure ?_
    have hfilled : (Part.filled (Bytes.ofText id)).Valid :=
      fun hempty => hne (Bytes.ofText_inj hempty)
    simp [ProposalOption.parts, ExecuteMigration.parts, hfilled]
  | upgradeSchema package toVersion =>
    exact .pure (by simp [ProposalOption.parts, UpgradeSchema.parts])
  | configureCash c =>
    refine (Address.ensures network c.owner).bind fun owner howner => ?_
    refine (Address.ensures network c.collectorAddress).bind fun collector hcollector => ?_
    refine (Ensures.optionally Amount.ensures c.minimalFee).bind fun fee hfee => .pure ?_
    simpa [ProposalOption.parts, Update.parts, Wire.CashConfiguration.parts, howner, hcollector]
      using hfee
  | configureTxFee c =>
    refine (Address.ensures network c.owner).bind fun owner howner => ?_
    refine (Ensures.optionally Amount.ensures c.baseFee).bind fun fee hfee => .pure ?_
    simpa [ProposalOption.parts, Update.parts, Wire.TxFeeConfiguration.parts, howner] using hfee
  | configureUsernames c =>
    refine (Address.ensures network c.owner).bind fun owner howner => .pure ?_
    simp [ProposalOption.parts, Update.parts, Wire.UsernameConfiguration.parts, howner]
  | configureAccounts c =>
    rw [Measure.toWire_configureAccounts]
    exact (AccountConfiguration.ensures c).bind fun m hm => .pure hm
  | configureMessageFees c =>
    refine (Address.ensures network c.owner).bind fun owner howner => ?_
    refine (Address.ensures network c.feeAdmin).bind fun feeAdmin hfeeAdmin => .pure ?_
    simp [ProposalOption.parts, Update.parts, Wire.MessageFeeConfiguration.parts, howner, hfeeAdmin]

namespace Action

theorem ensures_member (member : Action) :
    Ensures (memberToWire network member) fun place => AllValid place.parts := by
  unfold memberToWire
  split
  · next transfer =>
    refine (Transfer.ensures transfer).bind fun m hm => .pure ?_
    simpa [BatchPlace.parts, BatchMember.parts] using hm
  · exact .error _

theorem ensures (action : Action) :
    Ensures (action.toWire network) fun w => AllValid w.parts := by
  cases action with
  | enact measure => exact Measure.ensures measure
  | batch members =>
    refine (Ensures.mapM ensures_member members).bind fun places hplaces => .pure ?_
    exact allValid_flatMap.mpr hplaces

/-- What is encoded is one action with valid fields, which is read back if it is not too
long for a reader. -/
theorem ensures_encode (action : Action) :
    Ensures (action.encode network) fun bs => bs ≠ [] ∧ ∃ option : ProposalOption,
      bs = Message.encode (⟨some option⟩ : ProposalOptions) ∧ AllValid option.parts ∧
        (bs.length < 2 ^ 63 →
          Message.decode? bs = some (⟨some option⟩ : ProposalOptions) ∧
            ∃ action, decode network bs = .ok action) := by
  intro bs h
  have hread := fun hlength => decode_encode h hlength
  refine ⟨encode_ne_nil h, ?_⟩
  obtain ⟨option, hoption, rfl⟩ := encode_eq_ok.mp h
  refine ⟨option, rfl, ensures action option hoption, fun hlength => ⟨?_, _, hread (by omega)⟩⟩
  exact ProposalOptions.decode?_encode _ (by omega)

end Action

/-! ## Operations -/

theorem SwapOffer.ensures (o : SwapOffer) :
    Ensures (o.toWire network) fun m => AllValid m.parts := by
  refine (Check.ensures_exactly "hash" 32 o.hash).bind fun hash hhash => ?_
  refine (Address.ensures network o.sender).bind fun source hsource => ?_
  refine (Address.ensures network o.recipient).bind fun destination hdestination => ?_
  refine (Ensures.mapM Amount.ensures o.amounts).bind fun coins hcoins => ?_
  refine (Memo.ensures o.memo).bind fun memo hmemo => .pure ?_
  have hvalid : (Part.swapHash hash).Valid := hhash
  simpa [CreateSwap.parts, hvalid, hsource, hdestination, hmemo] using hcoins

theorem EscrowCreation.ensures (e : EscrowCreation) :
    Ensures (e.toWire network) fun m => AllValid m.parts := by
  refine (Address.ensures network e.sender).bind fun source hsource => ?_
  refine (Address.ensures network e.arbiter).bind fun arbiter harbiter => ?_
  refine (Address.ensures network e.recipient).bind fun destination hdestination => ?_
  refine (Ensures.mapM Amount.ensures e.amounts).bind fun coins hcoins => ?_
  refine (Memo.ensures e.memo).bind fun memo hmemo => .pure ?_
  simpa [CreateEscrow.parts, hsource, harbiter, hdestination, hmemo] using hcoins

/-- The party that is named is the one with a hash. -/
theorem EscrowParties.ensures (p : EscrowParties) :
    Ensures (p.toWire network) fun m => AllValid m.parts ∧ m.Obeys := by
  unfold toWire
  refine Ensures.guard fun hcount _ => ?_
  refine (Address.ensures? network p.sender).bind fun source hsource => ?_
  refine (Address.ensures? network p.arbiter).bind fun arbiter harbiter => ?_
  refine (Address.ensures? network p.recipient).bind fun destination hdestination => .pure ⟨?_, ?_⟩
  · simp [UpdateEscrowParties.parts, hsource.1, harbiter.1, hdestination.1]
  · have hone : p.count = 1 := Classical.not_not.mp hcount
    rw [count, ← List.countP_eq_length_filter] at hone
    rw [UpdateEscrowParties.Obeys, ← List.countP_eq_length_filter]
    simpa [List.countP_cons, hsource.2, harbiter.2, hdestination.2] using hone

theorem DomainRegistration.ensures (r : DomainRegistration) :
    Ensures (r.toWire network) fun m => AllValid m.parts := by
  refine (Address.ensures network r.admin).bind fun admin hadmin => ?_
  refine (Address.ensures? network r.broker).bind fun broker hbroker => ?_
  refine (MessageFee.ensures r.messageFees).bind fun fees hfees => .pure ?_
  simpa [RegisterDomain.parts, hadmin, hbroker.1] using hfees

theorem AccountRegistration.ensures (r : AccountRegistration) :
    Ensures (r.toWire network) fun m => AllValid m.parts := by
  refine (Address.ensures network r.owner).bind fun owner howner => ?_
  refine (Address.ensures? network r.broker).bind fun broker hbroker => .pure ?_
  simp [RegisterAccount.parts, howner, hbroker.1]

theorem Proposal.ensures (p : Proposal) :
    Ensures (p.toWire network) fun m => AllValid m.parts ∧ m.Obeys network := by
  refine (Action.ensures_encode p.action).bind fun raw hraw => ?_
  refine (Address.ensures network p.author).bind fun author hauthor => .pure ⟨?_, hraw.2⟩
  have hfilled : (Part.filled raw).Valid := hraw.1
  simp [CreateProposal.parts, hfilled, hauthor]

theorem Selection.valid_number (s : Selection) : (Part.choice s.number).Valid := by
  cases s
  · exact .inl rfl
  · exact .inr (.inl rfl)
  · exact .inr (.inr rfl)

theorem Vote.ensures (v : Vote) :
    Ensures (v.toWire network strict) fun m =>
      AllValid m.parts ∧ (strict = true → m.voter ≠ []) := by
  unfold toWire
  refine Ensures.guard fun hnamed _ => ?_
  refine (Address.ensures? network v.voter).bind fun voter hvoter => .pure ⟨?_, ?_⟩
  · simp [Wire.Vote.parts, hvoter.1, Selection.valid_number]
  · rintro rfl (rfl : voter = [])
    exact hnamed (by rw [← hvoter.2]; rfl)

theorem Operation.ensures_obeys (operation : Operation) :
    Ensures (operation.toWire network strict) fun body =>
      AllValid body.parts ∧ body.Obeys network strict := by
  cases operation with
  | send transfer => exact (Transfer.ensures transfer).bind fun m hm => .pure ⟨hm, trivial⟩
  | swapOffer offer => exact (SwapOffer.ensures offer).bind fun m hm => .pure ⟨hm, trivial⟩
  | swapClaim swapId preimage =>
    refine (Check.ensures_exactly "swapId" 8 swapId).bind fun id hid => ?_
    refine (Check.ensures_exactly "preimage" 32 preimage).bind fun hash hhash => .pure ⟨?_, trivial⟩
    have hvalid : (Part.id id).Valid ∧ (Part.swapHash hash).Valid := ⟨hid, hhash⟩
    simpa [Body.parts, ReleaseSwap.parts] using hvalid
  | swapAbort swapId =>
    refine (Check.ensures_exactly "swapId" 8 swapId).bind fun id hid => .pure ⟨?_, trivial⟩
    have hvalid : (Part.id id).Valid := hid
    simpa [Body.parts, Reference.parts] using hvalid
  | registerUsername username targets =>
    intro body hbody
    obtain ⟨name, hname, hmk⟩ := bind_eq_ok.mp hbody
    obtain rfl := pure_eq_ok.mp hmk
    obtain rfl := checkUsername_eq_ok hname
    refine ⟨by simp [Body.parts, UsernameTargets.parts], ?_⟩
    exact (checkUsername_accepts username).mp ⟨_, hname⟩
  | transferUsername username newOwner =>
    refine (Address.ensures network newOwner).bind fun owner howner => .pure ⟨?_, trivial⟩
    simp [Body.parts, TransferUsername.parts, howner]
  | updateAccountConfiguration c =>
    exact (AccountConfiguration.ensures c).bind fun m hm => .pure ⟨hm, trivial⟩
  | registerDomain r => exact (DomainRegistration.ensures r).bind fun m hm => .pure ⟨hm, trivial⟩
  | transferDomain domain newAdmin =>
    refine (Address.ensures network newAdmin).bind fun admin hadmin => .pure ⟨?_, trivial⟩
    simp [Body.parts, TransferDomain.parts, hadmin]
  | registerAccount r => exact (AccountRegistration.ensures r).bind fun m hm => .pure ⟨hm, trivial⟩
  | transferAccount domain name newOwner =>
    refine (Address.ensures network newOwner).bind fun owner howner => .pure ⟨?_, trivial⟩
    simp [Body.parts, TransferAccount.parts, howner]
  | addAccountCertificate domain name certificate =>
    refine (Check.ensures_present "certificate" certificate).bind fun bs hbs => .pure ⟨?_, trivial⟩
    simp [Body.parts, AddCertificate.parts, hbs]
  | replaceAccountMessageFees domain fees =>
    refine (MessageFee.ensures fees).bind fun ms hms => .pure ⟨?_, trivial⟩
    simpa [Body.parts, ReplaceMessageFees.parts] using hms
  | deleteAccountCertificate domain name certificateHash =>
    refine (Check.ensures_present "certificateHash" certificateHash).bind fun bs hbs =>
      .pure ⟨?_, trivial⟩
    simp [Body.parts, DeleteCertificate.parts, hbs]
  | createContract terms =>
    refine (Participant.ensures terms.participants).bind fun ms hms => .pure ⟨?_, trivial⟩
    simpa [Body.parts, CreateContract.parts, Wire.Participant.parts] using hms
  | updateContract contractId terms =>
    refine (Participant.ensures terms.participants).bind fun ms hms => .pure ⟨?_, trivial⟩
    simpa [Body.parts, UpdateContract.parts, Wire.Participant.parts] using hms
  | createEscrow e => exact (EscrowCreation.ensures e).bind fun m hm => .pure ⟨hm, trivial⟩
  | releaseEscrow escrowId amounts =>
    refine (Ensures.mapM Amount.ensures amounts).bind fun coins hcoins => .pure ⟨?_, trivial⟩
    simpa [Body.parts, ReleaseEscrow.parts] using hcoins
  | updateEscrowParties p => exact (EscrowParties.ensures p).bind fun m hm => .pure hm
  | createProposal p => exact (Proposal.ensures p).bind fun m hm => .pure hm
  | vote v => exact (Vote.ensures v).bind fun m hm => .pure hm
  -- the rest has a header, and one an id
  | updateUsernameTargets _ _ => exact .pure ⟨by simp [Body.parts, UsernameTargets.parts], trivial⟩
  | renewDomain _ => exact .pure ⟨by simp [Body.parts, DomainReference.parts], trivial⟩
  | deleteDomain _ => exact .pure ⟨by simp [Body.parts, DomainReference.parts], trivial⟩
  | replaceAccountTargets _ _ _ =>
    exact .pure ⟨by simp [Body.parts, ReplaceTargets.parts], trivial⟩
  | deleteAccount _ _ => exact .pure ⟨by simp [Body.parts, AccountReference.parts], trivial⟩
  | deleteAllAccounts _ => exact .pure ⟨by simp [Body.parts, DomainReference.parts], trivial⟩
  | renewAccount _ _ => exact .pure ⟨by simp [Body.parts, AccountReference.parts], trivial⟩
  | returnEscrow _ => exact .pure ⟨by simp [Body.parts, Reference.parts], trivial⟩

/-! ## Transactions -/

theorem Fee.ensures (network : Network) (fee : Fee) :
    Ensures (fee.toWire network) fun m => AllValid m.parts := by
  refine (Address.ensures? network fee.payer).bind fun payer hpayer => ?_
  refine (Ensures.optionally Amount.ensures fee.tokens).bind fun tokens htokens => .pure ?_
  simpa [FeeInfo.parts, hpayer.1] using htokens

theorem Signature.ensures (s : Signature) : Ensures s.toWire Wire.Signature.Obeys := by
  intro m h
  obtain ⟨-, hlength, rfl⟩ := toWire_eq_ok.mp h
  exact ⟨_, _, rfl, hlength, rfl⟩

namespace SignedTransaction

theorem ensures (s : SignedTransaction) :
    Ensures (s.toWire strict) (Tx.Obeys s.transaction.network strict) := by
  intro m h
  obtain ⟨signatures, hsignatures, htx⟩ := toWire_eq_ok.mp h
  obtain ⟨fees, hfees, body, hbody, rfl⟩ := Transaction.toWire_eq_ok.mp htx
  obtain ⟨hparts, hobeys⟩ := Operation.ensures_obeys s.transaction.operation body hbody
  have hfee := Ensures.optionally (Fee.ensures s.transaction.network) s.transaction.fee fees hfees
  exact {
    parts := by simpa [Tx.parts, hparts] using hfee
    signed := by
      rintro rfl
      cases mapM_eq_ok.mp hsignatures
    signatures := Ensures.mapM Signature.ensures s.signatures signatures hsignatures
    body := ⟨body, rfl, hobeys⟩ }

/-- The bytes of a signed transaction are those of an envelope in which every field, at
every depth, obeys the rules of the chain. -/
theorem obeys_of_encode {s : SignedTransaction} {bs : Bytes} (h : s.encode strict = .ok bs) :
    ∃ m, s.toWire strict = .ok m ∧ Message.encode m = bs ∧
      m.Obeys s.transaction.network strict := by
  obtain ⟨m, hm, hbs⟩ := encode_eq_ok.mp h
  exact ⟨m, hm, hbs, ensures s m hm⟩

/-- The rules hold of a fee, a contract, and a proposal that holds a batch. -/
theorem obeys_of_encode_batch :
    ∃ (s : SignedTransaction) (bs : Bytes) (m : Tx) (p : CreateProposal), s.encode true = .ok bs ∧
      s.toWire true = .ok m ∧ Message.encode m = bs ∧ m.Obeys .testnet true ∧
        m.fees ≠ none ∧ m.multisig.length = 1 ∧ m.body = some (.createProposal p) ∧
          p.rawOption.length = 66 := by
  let s : SignedTransaction := ⟨⟨"local", some ⟨some ⟨"1500000000", 9, "CASH"⟩, none⟩, [1],
    .createProposal {
      title := ""
      action := .batch [.enact (.send {
        sender := "tiov1qqqqqqqqqqqqqqqqqqqqqqqqqqqqqqqqzx8n0d"
        recipient := "tiov1qqqqqqqqqqqqqqqqqqqqqqqqqqqqqqqqzx8n0d"
        amount := ⟨"7", 9, "CASH"⟩
        memo := none })]
      description := ""
      electionRuleId := 2
      startTime := 0
      author := "tiov1qqqqqqqqqqqqqqqqqqqqqqqqqqqqqqqqzx8n0d" }⟩,
    ⟨0, ⟨.ed25519, List.replicate 32 0⟩, []⟩, []⟩
  let raw : Bytes := [226, 3, 63, 10, 61, 154, 3, 58, 10, 2, 8, 1, 18, 20] ++
    List.replicate 20 0 ++ [26, 20] ++ List.replicate 20 0 ++ [34, 8, 16, 7, 26, 4, 67, 65, 83, 72]
  have hencode : s.encode true = .ok ([10, 20, 10, 2, 8, 1, 26, 14, 8, 1, 16, 128, 202, 181, 238,
        1, 26, 4, 67, 65, 83, 72] ++ [18, 40, 18, 34, 10, 32] ++ List.replicate 32 0 ++
        [34, 2, 10, 0] ++ [34, 8, 0, 0, 0, 0, 0, 0, 0, 1] ++ [202, 4, 104, 10, 2, 8, 1, 26, 66] ++
        raw ++ [42, 8, 0, 0, 0, 0, 0, 0, 0, 2, 58, 20] ++ List.replicate 20 0) := by
    decide +kernel
  have hwire : s.toWire true = .ok ⟨some ⟨header, [], some ⟨1, 500000000, "CASH"⟩⟩,
      [⟨0, some ⟨some (List.replicate 32 0)⟩, some ⟨some []⟩⟩], [[0, 0, 0, 0, 0, 0, 0, 1]],
      some (.createProposal ⟨header, "", raw, "", [0, 0, 0, 0, 0, 0, 0, 2], 0,
        List.replicate 20 0⟩)⟩ := by
    decide +kernel
  obtain ⟨m, hm, hbs, hobeys⟩ := obeys_of_encode hencode
  obtain rfl := Except.ok.inj (hwire.symm.trans hm)
  exact ⟨s, _, _, _, hencode, hm, hbs, hobeys, by decide, rfl, rfl, rfl⟩

end SignedTransaction

end NameService
