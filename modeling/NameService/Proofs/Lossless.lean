import NameService.Proofs.FixedPoint
import NameService.Proofs.Validators
import NameService.Proofs.Wire.Same

/-
  What a message says is not lost by reading it.

  Each field is read in one way only, so that the fields of what was read tell those
  of the message. What no reader looks at is not told apart: headers, the reference of
  a transfer, and in what order electors and validators are listed. What is proved:
    1. `X.Reads.inj` — two messages that stand for one thing are the same in all that
       is read.
    2. `Operation.same_of_ofWire` — a message, and an option of a proposal, is read
       and written again as one that says the same; and messages that are read alike
       say the same.
-/

namespace NameService

open Result Wire

variable {network : Network}

/-! ## Fields -/

theorem Amount.ofCoin_inj {c c' : Coin} {a : Amount} (h : ofCoin c = .ok a)
    (h' : ofCoin c' = .ok a) : c = c' :=
  Except.ok.inj ((toCoin_of_ofCoin h).symm.trans (toCoin_of_ofCoin h'))

theorem Amount.Reads.inj {c c' : Option Coin} {a : Amount} (h : Reads c a) (h' : Reads c' a) :
    c = c' := by
  obtain ⟨coin, rfl, hcoin⟩ := h
  obtain ⟨coin', rfl, hcoin'⟩ := h'
  rw [ofCoin_inj hcoin hcoin']

theorem Memo.decode_inj {text text' : String} (h : decode text = decode text') : text = text' := by
  unfold decode at h
  split at h <;> split at h <;> simp_all

theorem Fraction.ofWire_inj {m m' : Wire.Fraction} {f : Fraction} (h : ofWire m = .ok f)
    (h' : ofWire m' = .ok f) : m = m' :=
  (eq_of_ofWire h).2.symm.trans (eq_of_ofWire h').2

theorem MessageFee.Reads.inj {m m' : Wire.MessageFee} {f : MessageFee} (h : Reads m f)
    (h' : Reads m' f) : m = m' := by
  obtain ⟨path, fee⟩ := m
  obtain ⟨path', fee'⟩ := m'
  obtain rfl : path = path' := h.1.trans h'.1.symm
  obtain rfl : fee = fee' := Amount.Reads.inj h.2 h'.2
  rfl

theorem Participant.Reads.inj {m m' : Wire.Participant} {p : Participant} (h : Reads network m p)
    (h' : Reads network m' p) : m = m' := by
  obtain ⟨signature, weight⟩ := m
  obtain ⟨signature', weight'⟩ := m'
  obtain rfl : signature = signature' := Address.Reads.inj h.1 h'.1
  obtain rfl : weight = weight' := h.2.trans h'.2.symm
  rfl

/-- Optional values that are read alike are the same, if the values are. -/
theorem Check.rel_inj {α β : Type} {r : α → β → Prop} (hr : Relator.LeftUnique r)
    {o o' : Option α} {x : Option β} (h : Option.Rel r o x) (h' : Option.Rel r o' x) : o = o' := by
  cases h with
  | none =>
    cases h' with
    | none => rfl
  | some hab =>
    cases h' with
    | some hab' => rw [hr hab hab']

theorem Amount.leftUnique : Relator.LeftUnique fun (c : Coin) a => ofCoin c = .ok a :=
  fun _ _ _ => ofCoin_inj

theorem Fraction.leftUnique : Relator.LeftUnique fun (m : Wire.Fraction) f => ofWire m = .ok f :=
  fun _ _ _ => ofWire_inj

theorem Amount.coins_inj {cs cs' : List Coin} {amounts : List Amount}
    (h : List.Forall₂ (fun c a => ofCoin c = .ok a) cs amounts)
    (h' : List.Forall₂ (fun c a => ofCoin c = .ok a) cs' amounts) : cs = cs' :=
  List.left_unique_forall₂' leftUnique h h'

theorem MessageFee.list_inj {ms ms' : List Wire.MessageFee} {fees : List MessageFee}
    (h : List.Forall₂ Reads ms fees) (h' : List.Forall₂ Reads ms' fees) : ms = ms' := by
  have hunique : Relator.LeftUnique Reads := fun _ _ _ => Reads.inj
  exact List.left_unique_forall₂' hunique h h'

theorem Participant.list_inj {ms ms' : List Wire.Participant} {ps : List Participant}
    (h : List.Forall₂ (Reads network) ms ps) (h' : List.Forall₂ (Reads network) ms' ps) :
    ms = ms' := by
  have hunique : Relator.LeftUnique (Reads network) := fun _ _ _ => Reads.inj
  exact List.left_unique_forall₂' hunique h h'

/-! ## Maps -/

namespace Validator

/-- Validators that are read alike have the same last entries, if all of them have keys
of the one scheme that is read. -/
theorem Reads.lastOf_eq {ms ms' : List ValidatorUpdate} {updates : SortedMap Int64}
    (h : Reads ms updates) (h' : Reads ms' updates)
    (hplain : ∀ u ∈ ms, ∀ key ∈ u.publicKey, key.type = "ed25519")
    (hplain' : ∀ u ∈ ms', ∀ key ∈ u.publicKey, key.type = "ed25519") (key : Option ValidatorKey) :
    SortedMap.lastOf (·.publicKey) key ms = SortedMap.lastOf (·.publicKey) key ms' := by
  -- the name of a validator tells its key, and its key the whole of it
  have hvalid : ∀ {ms : List ValidatorUpdate}, (∀ u ∈ ms, keyOf u ≠ []) →
      (∀ u ∈ ms, ∀ key ∈ u.publicKey, key.type = "ed25519") →
        ∀ u ∈ ms, u.publicKey = some ⟨"ed25519", keyOf u⟩ := by
    intro ms hne htype u hu
    obtain ⟨key, hkey, -⟩ := keyOf_ne_nil_iff.mp (hne u hu)
    have hed : key.type = "ed25519" := htype u hu key hkey
    rw [keyOf, hkey, ← hed]
    rfl
  refine SortedMap.lastOf_eq_of_ofList_eq (f := entry) ?_ ?_ (hvalid h.1 hplain)
    (hvalid h'.1 hplain') (h.2.trans h'.2.symm) key
  · intro u v hu hv
    rw [hu, hv]
    constructor
    · intro hname
      rw [name_inj hname]
    · intro hkey
      have hdata : keyOf u = keyOf v := congrArg ValidatorKey.data (Option.some.inj hkey)
      exact congrArg name hdata
  · intro u v hu hv hentry
    obtain ⟨hname, hpower⟩ := Prod.mk.inj hentry
    obtain ⟨publicKey, power⟩ := u
    obtain ⟨publicKey', power'⟩ := v
    obtain rfl : power = power' := hpower
    obtain rfl : publicKey = publicKey' := by
      refine hu.trans (Eq.trans ?_ hv.symm)
      rw [name_inj hname]
    rfl

end Validator

/-- Electors that are read alike have the same last entries. -/
theorem Elector.Reads.lastOf_eq {ms ms' : List Wire.Elector} {electors : SortedMap UInt32}
    (h : Reads network ms electors) (h' : Reads network ms' electors) (address : Bytes) :
    SortedMap.lastOf (·.address) address ms = SortedMap.lastOf (·.address) address ms' := by
  have hspelling : ∀ m n : Wire.Elector, m.address.length = Address.length →
      n.address.length = Address.length →
        ((entry network m).1 = (entry network n).1 ↔ m.address = n.address) := by
    intro m n hm hn
    constructor
    · exact fun heq => Address.Reads.inj ⟨hm, heq⟩ ⟨hn, rfl⟩
    · exact congrArg (Bech32.encode network.hrp)
  refine SortedMap.lastOf_eq_of_ofList_eq hspelling ?_ h.1 h'.1 (h.2.trans h'.2.symm) address
  intro m n hm hn hentry
  obtain ⟨hname, hweight⟩ := Prod.mk.inj hentry
  obtain ⟨hash, weight⟩ := m
  obtain ⟨hash', weight'⟩ := n
  obtain rfl : hash = hash' := (hspelling _ _ hm hn).mp hname
  obtain rfl : weight = weight' := hweight
  rfl

/-! ## Actions -/

theorem Transfer.Reads.inj {m m' : Send} {t : Transfer} (h : Reads network m t)
    (h' : Reads network m' t) : m.bare = m'.bare := by
  rw [Send.bare, Send.bare, h.sender.inj h'.sender, h.recipient.inj h'.recipient,
    h.amount.inj h'.amount, Memo.decode_inj (h.memo.trans h'.memo.symm)]

theorem AccountConfiguration.Reads.inj {m m' : Wire.AccountConfiguration}
    {c : AccountConfiguration} (h : Reads network m c) (h' : Reads network m' c) :
    { m with metadata := none } = { m' with metadata := none } := by
  rw [h.owner.inj h'.owner, h.validDomain, h'.validDomain, h.validName, h'.validName,
    h.validBlockchainId, h'.validBlockchainId, h.validBlockchainAddress,
    h'.validBlockchainAddress, h.domainRenew, h'.domainRenew]

/-- Batches that are read alike are the same without headers and references. -/
theorem Action.places_inj {ps ps' : List BatchPlace} {members : List Action}
    (h : List.Forall₂ (MemberReads network) ps members)
    (h' : List.Forall₂ (MemberReads network) ps' members) :
    ps.map BatchPlace.bare = ps'.map BatchPlace.bare := by
  -- a member does not tell its place, but its place without header and reference
  have hunique : Relator.LeftUnique fun b member =>
      ∃ p : BatchPlace, p.bare = b ∧ MemberReads network p member := by
    rintro _ _ member ⟨p, rfl, hp⟩ ⟨p', rfl, hp'⟩
    cases hp with
    | send ht =>
      cases hp' with
      | send ht' =>
        simp only [BatchPlace.bare, Option.map_some, BatchMember.bare, ht.inj ht']
  apply List.left_unique_forall₂' hunique
  · exact List.forall₂_map_left_iff.mpr (h.imp fun p _ hp => ⟨p, rfl, hp⟩)
  · exact List.forall₂_map_left_iff.mpr (h'.imp fun p _ hp => ⟨p, rfl, hp⟩)

/-- A list of one coin is told by its first one. -/
theorem Amount.eq_singleton {cs : List Coin} {c : Coin} (hlength : cs.length = 1)
    (hhead : cs.head? = some c) : cs = [c] := by
  obtain ⟨d, rfl⟩ := List.length_eq_one_iff.mp hlength
  obtain rfl := Option.some.inj hhead
  rfl

/-- Options of proposals that are read as one action say the same. -/
theorem Action.Reads.same {v w : ProposalOption} {action : Action} (h : Reads network v action)
    (h' : Reads network w action) (hv : v.Plain) (hw : w.Plain) : v.Same w := by
  cases h with
  | textResolution hresolution =>
    cases h' with
    | textResolution hresolution' =>
      apply ProposalOption.Same.bare
      rw [ProposalOption.bare, ProposalOption.bare, hresolution, hresolution']
  | batch hmembers =>
    cases h' with
    | batch hmembers' =>
      apply ProposalOption.Same.bare
      rw [ProposalOption.bare, ProposalOption.bare, places_inj hmembers hmembers']
  | releaseEscrow hid hcoin hamount =>
    cases h' with
    | releaseEscrow hid' hcoin' hamount' =>
      apply ProposalOption.Same.bare
      rw [ProposalOption.bare, ProposalOption.bare, ← hid, ← hid',
        Amount.eq_singleton hv hcoin, Amount.eq_singleton hw hcoin',
        Amount.ofCoin_inj hamount hamount']
  | send ht =>
    cases h' with
    | send ht' =>
      apply ProposalOption.Same.bare
      rw [ProposalOption.bare, ProposalOption.bare, ht.inj ht']
  | applyDiff hupdates =>
    cases h' with
    | applyDiff hupdates' => exact .validators (hupdates.lastOf_eq hupdates' hv hw)
  | updateElectionRule hid hthreshold hquorum hperiod =>
    cases h' with
    | updateElectionRule hid' hthreshold' hquorum' hperiod' =>
      apply ProposalOption.Same.bare
      rw [ProposalOption.bare, ProposalOption.bare, ← hid, ← hid', hperiod, hperiod',
        Check.rel_inj Fraction.leftUnique hthreshold hthreshold',
        Check.rel_inj Fraction.leftUnique hquorum hquorum']
  | updateElectorate hid helectors =>
    cases h' with
    | updateElectorate hid' helectors' =>
      exact .electors (hid.symm.trans hid') (helectors.lastOf_eq helectors')
  | setMessageFee hpath hfee =>
    cases h' with
    | setMessageFee hpath' hfee' =>
      apply ProposalOption.Same.bare
      rw [ProposalOption.bare, ProposalOption.bare, hpath, hpath', hfee.inj hfee']
  | executeMigration hid hne =>
    cases h' with
    | executeMigration hid' hne' =>
      apply ProposalOption.Same.bare
      rw [ProposalOption.bare, ProposalOption.bare, hid, hid']
  | upgradeSchema hpackage hversion =>
    cases h' with
    | upgradeSchema hpackage' hversion' =>
      apply ProposalOption.Same.bare
      rw [ProposalOption.bare, ProposalOption.bare, hpackage, hpackage', hversion, hversion']
  | updateCash hpatch howner hcollector hfee =>
    cases h' with
    | updateCash hpatch' howner' hcollector' hfee' =>
      apply ProposalOption.Same.bare
      rw [ProposalOption.bare, ProposalOption.bare, Update.bare, Update.bare, hpatch, hpatch',
        Option.map_some, Option.map_some, howner.inj howner', hcollector.inj hcollector',
        Check.rel_inj Amount.leftUnique hfee hfee']
  | updateTxFee hpatch howner hfree hfee =>
    cases h' with
    | updateTxFee hpatch' howner' hfree' hfee' =>
      apply ProposalOption.Same.bare
      rw [ProposalOption.bare, ProposalOption.bare, Update.bare, Update.bare, hpatch, hpatch',
        Option.map_some, Option.map_some, howner.inj howner', hfree, hfree',
        Check.rel_inj Amount.leftUnique hfee hfee']
  | updateUsername hpatch howner hname hlabel =>
    cases h' with
    | updateUsername hpatch' howner' hname' hlabel' =>
      apply ProposalOption.Same.bare
      rw [ProposalOption.bare, ProposalOption.bare, Update.bare, Update.bare, hpatch, hpatch',
        Option.map_some, Option.map_some, howner.inj howner', hname, hname', hlabel, hlabel']
  | updateAccount hpatch hc =>
    cases h' with
    | updateAccount hpatch' hc' =>
      apply ProposalOption.Same.bare
      rw [ProposalOption.bare, ProposalOption.bare, Update.bare, Update.bare, hpatch, hpatch',
        Option.map_some, Option.map_some, hc.inj hc']
  | updateMessageFee hpatch howner hfeeAdmin =>
    cases h' with
    | updateMessageFee hpatch' howner' hfeeAdmin' =>
      apply ProposalOption.Same.bare
      rw [ProposalOption.bare, ProposalOption.bare, Update.bare, Update.bare, hpatch, hpatch',
        Option.map_some, Option.map_some, howner.inj howner', hfeeAdmin.inj hfeeAdmin']

/-! ## Operations -/

theorem SwapOffer.Reads.inj {m m' : CreateSwap} {o : SwapOffer} (h : Reads network m o)
    (h' : Reads network m' o) : { m with metadata := none } = { m' with metadata := none } := by
  rw [h.sender.inj h'.sender, h.recipient.inj h'.recipient, Amount.coins_inj h.amounts h'.amounts,
    h.hash, h'.hash, h.timeout, h'.timeout, Memo.decode_inj (h.memo.trans h'.memo.symm)]

theorem DomainRegistration.Reads.inj {m m' : RegisterDomain} {r : DomainRegistration}
    (h : Reads network m r) (h' : Reads network m' r) :
    { m with metadata := none } = { m' with metadata := none } := by
  rw [h.domain, h'.domain, h.admin.inj h'.admin, h.hasSuperuser, h'.hasSuperuser,
    h.broker.inj h'.broker, MessageFee.list_inj h.messageFees h'.messageFees, h.accountRenew,
    h'.accountRenew]

theorem AccountRegistration.Reads.inj {m m' : RegisterAccount} {r : AccountRegistration}
    (h : Reads network m r) (h' : Reads network m' r) :
    { m with metadata := none } = { m' with metadata := none } := by
  rw [h.domain, h'.domain, h.name, h'.name, h.owner.inj h'.owner, h.targets, h'.targets,
    h.broker.inj h'.broker]

theorem EscrowCreation.Reads.inj {m m' : CreateEscrow} {e : EscrowCreation}
    (h : Reads network m e) (h' : Reads network m' e) :
    { m with metadata := none } = { m' with metadata := none } := by
  rw [h.sender.inj h'.sender, h.arbiter.inj h'.arbiter, h.recipient.inj h'.recipient,
    Amount.coins_inj h.amounts h'.amounts, h.timeout, h'.timeout,
    Memo.decode_inj (h.memo.trans h'.memo.symm)]

theorem EscrowParties.Reads.inj {m m' : UpdateEscrowParties} {p : EscrowParties}
    (h : Reads network m p) (h' : Reads network m' p) :
    { m with metadata := none } = { m' with metadata := none } := by
  rw [← h.escrowId, ← h'.escrowId, h.sender.inj h'.sender, h.arbiter.inj h'.arbiter,
    h.recipient.inj h'.recipient]

theorem Vote.Reads.inj {m m' : Wire.Vote} {v : Vote} (h : Reads network m v)
    (h' : Reads network m' v) : { m with metadata := none } = { m' with metadata := none } := by
  rw [← h.proposalId, ← h'.proposalId, ← h.selection, ← h'.selection, h.voter.inj h'.voter]

/-- Proposals that are read alike are the same but for their options, which say the
same. -/
theorem Proposal.Reads.same {m m' : CreateProposal} {p : Proposal} (h : Reads network m p)
    (h' : Reads network m' p) (hm : (Body.createProposal m).Plain)
    (hm' : (Body.createProposal m').Plain) :
    (Body.createProposal m).Same (.createProposal m') := by
  obtain ⟨v, hv, hreads⟩ := h.action
  obtain ⟨w, hw, hreads'⟩ := h'.action
  refine .proposal hv hw (hreads.same hreads' (hm v hv) (hm' w hw)) ?_
  rw [h.title, h'.title, h.description, h'.description, ← h.electionRuleId, ← h'.electionRuleId,
    h.startTime, h'.startTime, h.author.inj h'.author]

/-- Messages that are read as one operation say the same. -/
theorem Operation.Reads.same {b c : Body} {operation : Operation} (h : Reads network b operation)
    (h' : Reads network c operation) (hb : b.Plain) (hc : c.Plain) : b.Same c := by
  cases h with
  | send ht =>
    cases h' with
    | send ht' =>
      apply Body.Same.bare
      rw [Body.bare, Body.bare, ht.inj ht']
  | createSwap ho =>
    cases h' with
    | createSwap ho' =>
      apply Body.Same.bare
      rw [Body.bare, Body.bare, ho.inj ho']
  | releaseSwap hid hidLength hpreimage hlength =>
    cases h' with
    | releaseSwap hid' hidLength' hpreimage' hlength' =>
      apply Body.Same.bare
      rw [Body.bare, Body.bare, hid, hid', hpreimage, hpreimage']
  | returnSwap hid hlength =>
    cases h' with
    | returnSwap hid' hlength' =>
      apply Body.Same.bare
      rw [Body.bare, Body.bare, hid, hid']
  | registerUsername husername htargets =>
    cases h' with
    | registerUsername husername' htargets' =>
      apply Body.Same.bare
      rw [Body.bare, Body.bare, husername, husername', htargets, htargets']
  | changeUsernameTargets husername htargets =>
    cases h' with
    | changeUsernameTargets husername' htargets' =>
      apply Body.Same.bare
      rw [Body.bare, Body.bare, husername, husername', htargets, htargets']
  | transferUsername husername howner =>
    cases h' with
    | transferUsername husername' howner' =>
      apply Body.Same.bare
      rw [Body.bare, Body.bare, husername, husername', howner.inj howner']
  | updateAccountConfiguration hpatch hconfiguration =>
    cases h' with
    | updateAccountConfiguration hpatch' hconfiguration' =>
      apply Body.Same.bare
      rw [Body.bare, Body.bare, Update.bare, Update.bare, hpatch, hpatch', Option.map_some,
        Option.map_some, hconfiguration.inj hconfiguration']
  | registerDomain hr =>
    cases h' with
    | registerDomain hr' =>
      apply Body.Same.bare
      rw [Body.bare, Body.bare, hr.inj hr']
  | transferDomain hdomain hadmin =>
    cases h' with
    | transferDomain hdomain' hadmin' =>
      apply Body.Same.bare
      rw [Body.bare, Body.bare, hdomain, hdomain', hadmin.inj hadmin']
  | renewDomain hdomain =>
    cases h' with
    | renewDomain hdomain' =>
      apply Body.Same.bare
      rw [Body.bare, Body.bare, hdomain, hdomain']
  | deleteDomain hdomain =>
    cases h' with
    | deleteDomain hdomain' =>
      apply Body.Same.bare
      rw [Body.bare, Body.bare, hdomain, hdomain']
  | registerAccount hr =>
    cases h' with
    | registerAccount hr' =>
      apply Body.Same.bare
      rw [Body.bare, Body.bare, hr.inj hr']
  | transferAccount hdomain hname howner =>
    cases h' with
    | transferAccount hdomain' hname' howner' =>
      apply Body.Same.bare
      rw [Body.bare, Body.bare, hdomain, hdomain', hname, hname', howner.inj howner']
  | replaceTargets hdomain hname htargets =>
    cases h' with
    | replaceTargets hdomain' hname' htargets' =>
      apply Body.Same.bare
      rw [Body.bare, Body.bare, hdomain, hdomain', hname, hname', htargets, htargets']
  | deleteAccount hdomain hname =>
    cases h' with
    | deleteAccount hdomain' hname' =>
      apply Body.Same.bare
      rw [Body.bare, Body.bare, hdomain, hdomain', hname, hname']
  | flushDomain hdomain =>
    cases h' with
    | flushDomain hdomain' =>
      apply Body.Same.bare
      rw [Body.bare, Body.bare, hdomain, hdomain']
  | renewAccount hdomain hname =>
    cases h' with
    | renewAccount hdomain' hname' =>
      apply Body.Same.bare
      rw [Body.bare, Body.bare, hdomain, hdomain', hname, hname']
  | addCertificate hdomain hname hcertificate hne =>
    cases h' with
    | addCertificate hdomain' hname' hcertificate' hne' =>
      apply Body.Same.bare
      rw [Body.bare, Body.bare, hdomain, hdomain', hname, hname', hcertificate, hcertificate']
  | replaceMessageFees hdomain hfees =>
    cases h' with
    | replaceMessageFees hdomain' hfees' =>
      apply Body.Same.bare
      rw [Body.bare, Body.bare, hdomain, hdomain', MessageFee.list_inj hfees hfees']
  | deleteCertificate hdomain hname hhash hne =>
    cases h' with
    | deleteCertificate hdomain' hname' hhash' hne' =>
      apply Body.Same.bare
      rw [Body.bare, Body.bare, hdomain, hdomain', hname, hname', hhash, hhash']
  | createContract hparticipants hactivation hadmin =>
    cases h' with
    | createContract hparticipants' hactivation' hadmin' =>
      apply Body.Same.bare
      rw [Body.bare, Body.bare, Participant.list_inj hparticipants hparticipants', hactivation,
        hactivation', hadmin, hadmin']
  | updateContract hid hparticipants hactivation hadmin =>
    cases h' with
    | updateContract hid' hparticipants' hactivation' hadmin' =>
      apply Body.Same.bare
      rw [Body.bare, Body.bare, ← hid, ← hid', Participant.list_inj hparticipants hparticipants',
        hactivation, hactivation', hadmin, hadmin']
  | createEscrow he =>
    cases h' with
    | createEscrow he' =>
      apply Body.Same.bare
      rw [Body.bare, Body.bare, he.inj he']
  | releaseEscrow hid hamounts =>
    cases h' with
    | releaseEscrow hid' hamounts' =>
      apply Body.Same.bare
      rw [Body.bare, Body.bare, ← hid, ← hid', Amount.coins_inj hamounts hamounts']
  | returnEscrow hid =>
    cases h' with
    | returnEscrow hid' =>
      apply Body.Same.bare
      rw [Body.bare, Body.bare, ← hid, ← hid']
  | updateEscrowParties hp =>
    cases h' with
    | updateEscrowParties hp' =>
      apply Body.Same.bare
      rw [Body.bare, Body.bare, hp.inj hp']
  | createProposal hp =>
    cases h' with
    | createProposal hp' => exact hp.same hp' hb hc
  | vote hv =>
    cases h' with
    | vote hv' =>
      apply Body.Same.bare
      rw [Body.bare, Body.bare, hv.inj hv']

/-! ## Writing again -/

/-- Electors are written as the entries of their map, if this is in normal form. -/
theorem Elector.map_entry_of_toWire {electors : SortedMap UInt32} {ms : List Wire.Elector}
    (h : updatesToWire network electors = .ok ms)
    (hleaves : ∀ leaf ∈ Elector.leaves electors, leaf.Canonical network) :
    ms.map (entry network) = electors.entries := by
  have hrespell : ms.map (entry network) = respelled network electors := by
    rw [respelled, ← List.forall₂_eq_eq_eq, List.forall₂_map_left_iff, List.forall₂_map_right_iff]
    refine (mapM_eq_ok.mp h).flip.imp fun m e hm => ?_
    obtain ⟨hash, hhash, hmk⟩ := bind_eq_ok.mp hm
    obtain rfl := pure_eq_ok.mp hmk
    rw [respell, Address.canonical_of_decodeFor hhash, entry]
  rw [hrespell, respelled_eq_entries hleaves]

/-- What was read as an action and is written again is read as it again. -/
theorem Action.reads_of_toWire {v w : ProposalOption} {action : Action}
    (h : Reads network v action) (hw : action.toWire network = .ok w) : Reads network w action := by
  have hread := ofWire_toWire hw
  rw [normal_eq_self action fun leaf hleaf => (h.leaves leaf hleaf).canonical] at hread
  exact reads_of_ofWire hread

/-- What is written is plain and in the order of the keys. -/
theorem Action.plain_of_toWire {v w : ProposalOption} {action : Action}
    (h : Reads network v action) (hw : action.toWire network = .ok w) :
    w.Plain ∧ w.InKeyOrder network := by
  have hleaves := h.leaves
  -- the kind of option is that of the action; only three of them can be out of order or
  -- hold too much
  cases reads_of_toWire h hw with
  | releaseEscrow hid hcoin hamount =>
    simp only [toWire, Measure.toWire, bind_eq_ok, pure_eq_ok, ProposalOption.releaseEscrow.injEq]
      at hw
    obtain ⟨coin, hcoin, rfl⟩ := hw
    exact ⟨rfl, trivial⟩
  | applyDiff hupdates =>
    simp only [toWire, Measure.toWire, bind_eq_ok, pure_eq_ok, ProposalOption.applyDiff.injEq] at hw
    obtain ⟨ms, hms, rfl⟩ := hw
    obtain ⟨hplain, hentries⟩ := Validator.map_entry_of_toWire hms
    refine ⟨hplain, ?_⟩
    show (ms.map Validator.entry).Pairwise fun a b => a.1 < b.1
    rw [hentries]
    exact SortedMap.sorted _
  | updateElectorate hid helectors =>
    simp only [toWire, Measure.toWire, bind_eq_ok, pure_eq_ok,
      ProposalOption.updateElectorate.injEq] at hw
    obtain ⟨ms, hms, rfl⟩ := hw
    refine ⟨trivial, ?_⟩
    show (ms.map (Elector.entry network)).Pairwise fun a b => a.1 < b.1
    rw [Elector.map_entry_of_toWire hms fun leaf hleaf => (hleaves leaf hleaf).canonical]
    exact SortedMap.sorted _
  | _ => exact ⟨trivial, trivial⟩

/-- The same of operations. -/
theorem Operation.reads_of_toWire {b c : Body} {operation : Operation} {strict : Bool}
    (h : Reads network b operation) (hc : operation.toWire network strict = .ok c)
    (hraw : c.RawFits) : Reads network c operation := by
  have hread := ofWire_toWire hc hraw
  rw [normal_eq_self fun leaf hleaf => (h.leaves leaf hleaf).canonical] at hread
  exact reads_of_ofWire hread

theorem Operation.plain_of_toWire {b c : Body} {operation : Operation} {strict : Bool}
    (h : Reads network b operation) (hc : operation.toWire network strict = .ok c)
    (hraw : c.RawFits) : c.Plain ∧ c.InKeyOrder network := by
  cases reads_of_toWire h hc hraw with
  | @createProposal m p hp' =>
    cases h with
    | createProposal hp =>
      obtain ⟨v, -, hv⟩ := hp.action
      simp only [toWire, bind_eq_ok, pure_eq_ok, Body.createProposal.injEq] at hc
      obtain ⟨_, hproposal, rfl⟩ := hc
      obtain ⟨raw, hrawOption, author, -, rfl⟩ := Proposal.toWire_eq_ok.mp hproposal
      obtain ⟨w, hw, rfl⟩ := Action.encode_eq_ok.mp hrawOption
      -- the bytes in the proposal are those of the one option that was written
      have hwritten : ∀ w', Message.decode? (Message.encode (⟨some w⟩ : ProposalOptions)) =
          some (⟨some w'⟩ : ProposalOptions) → w' = w := by
        intro w' hw'
        rw [ProposalOptions.decode?_encode _ hraw, Option.some.injEq] at hw'
        exact (Option.some.inj (ProposalOptions.mk.inj hw')).symm
      obtain ⟨hplain, horder⟩ := Action.plain_of_toWire hv hw
      exact ⟨fun w' hw' => hwritten w' hw' ▸ hplain, fun w' hw' => hwritten w' hw' ▸ horder⟩
  | _ => exact ⟨trivial, trivial⟩

/-- Nothing but headers, references of transfers, and the order and repetition of
electors and validators is lost by reading, as far as actions have room for it.
Messages that are read and written again say the same, and so do messages that are
read alike; and so it is with the options of proposals. -/
theorem Operation.same_of_ofWire (network : Network) :
    (∀ (b c : Body) (operation : Operation), ofWire network b = .ok operation → b.Plain →
        operation.toWire network false = .ok c → c.RawFits →
          c.Same b ∧ c.InKeyOrder network) ∧
      (∀ (v w : ProposalOption) (action : Action), Action.ofWire network v = .ok action → v.Plain →
        action.toWire network = .ok w → w.Same v ∧ w.InKeyOrder network) ∧
      (∀ (b c : Body) (operation : Operation), ofWire network b = .ok operation →
        ofWire network c = .ok operation → b.Plain → c.Plain → b.Same c) ∧
      ∀ (v w : ProposalOption) (action : Action), Action.ofWire network v = .ok action →
        Action.ofWire network w = .ok action → v.Plain → w.Plain → v.Same w := by
  refine ⟨?_, ?_, ?_, ?_⟩
  · intro b c operation hread hplain hwrite hraw
    have hreads := reads_of_ofWire hread
    obtain ⟨hc, horder⟩ := plain_of_toWire hreads hwrite hraw
    exact ⟨(reads_of_toWire hreads hwrite hraw).same hreads hc hplain, horder⟩
  · intro v w action hread hplain hwrite
    have hreads := Action.reads_of_ofWire hread
    obtain ⟨hw, horder⟩ := Action.plain_of_toWire hreads hwrite
    exact ⟨(Action.reads_of_toWire hreads hwrite).same hreads hw hplain, horder⟩
  · intro b c operation hb hc
    exact (reads_of_ofWire hb).same (reads_of_ofWire hc)
  · intro v w action hv hw
    exact (Action.reads_of_ofWire hv).same (Action.reads_of_ofWire hw)

/-- A transfer with a reference, and electors out of order of which one is listed twice:
both come out in another form that says the same. -/
theorem Operation.same_of_ofWire_electors :
    ∃ (b c : Body) (v w : ProposalOption), b ≠ c ∧ v ≠ w ∧
      (c.Same b ∧ c.InKeyOrder .testnet) ∧ (w.Same v ∧ w.InKeyOrder .testnet) ∧
        b.Same c ∧ v.Same w := by
  obtain ⟨hbody, hoption, hbodies, hoptions⟩ := same_of_ofWire .testnet
  let b : Body := .send ⟨header, List.replicate 20 0, List.replicate 20 0, some ⟨0, 7, "CASH"⟩, "",
    [1]⟩
  let c : Body := .send ⟨header, List.replicate 20 0, List.replicate 20 0, some ⟨0, 7, "CASH"⟩, "",
    []⟩
  let operation : Operation := .send {
    sender := "tiov1qqqqqqqqqqqqqqqqqqqqqqqqqqqqqqqqzx8n0d"
    recipient := "tiov1qqqqqqqqqqqqqqqqqqqqqqqqqqqqqqqqzx8n0d"
    amount := ⟨"7", 9, "CASH"⟩
    memo := none }
  let v : ProposalOption := .updateElectorate ⟨none, [0, 0, 0, 0, 0, 0, 0, 1],
    [⟨List.replicate 20 1, 5⟩, ⟨List.replicate 20 0, 1⟩, ⟨List.replicate 20 1, 2⟩]⟩
  let w : ProposalOption := .updateElectorate ⟨header, [0, 0, 0, 0, 0, 0, 0, 1],
    [⟨List.replicate 20 0, 1⟩, ⟨List.replicate 20 1, 2⟩]⟩
  let action : Action := .enact (.updateElectorate 1 (.ofList
    [("tiov1qqqqqqqqqqqqqqqqqqqqqqqqqqqqqqqqzx8n0d", 1),
      (Bech32.encode "tiov" (List.replicate 20 1), 2)]))
  have hb : ofWire .testnet b = .ok operation := by decide +kernel
  have hc : ofWire .testnet c = .ok operation := by decide +kernel
  have hwrite : operation.toWire .testnet false = .ok c := by decide +kernel
  have hv : Action.ofWire .testnet v = .ok action := by decide +kernel
  have hw : Action.ofWire .testnet w = .ok action := by decide +kernel
  have hwriteAction : action.toWire .testnet = .ok w := by decide +kernel
  exact ⟨b, c, v, w, by decide, by decide, hbody b c operation hb trivial hwrite trivial,
    hoption v w action hv trivial hwriteAction, hbodies b c operation hb hc trivial trivial,
    hoptions v w action hv hw trivial trivial⟩

/-- What is lost: the reference of a transfer, the order in which validators and
electors are listed, and the first of two entries for one of them. The headers here are
the same before and after. -/
theorem Operation.reference_and_order_lost :
    (∃ (m m' : Send) (operation : Operation), ofWire .testnet (.send m) = .ok operation ∧
        operation.toWire .testnet false = .ok (.send m') ∧
          ofWire .testnet (.send m') = .ok operation ∧ m'.metadata = m.metadata ∧
            m'.reference ≠ m.reference) ∧
      (∃ (m m' : ApplyDiff) (action : Action),
        Action.ofWire .testnet (.applyDiff m) = .ok action ∧
          action.toWire .testnet = .ok (.applyDiff m') ∧
            Action.ofWire .testnet (.applyDiff m') = .ok action ∧
              m'.metadata = m.metadata ∧ m'.validatorUpdates ≠ m.validatorUpdates) ∧
        ∃ (m m' : UpdateElectorate) (action : Action),
          Action.ofWire .testnet (.updateElectorate m) = .ok action ∧
            action.toWire .testnet = .ok (.updateElectorate m') ∧
              Action.ofWire .testnet (.updateElectorate m') = .ok action ∧
                m'.metadata = m.metadata ∧ m'.diffElectors ≠ m.diffElectors := by
  refine ⟨?_, ?_, ?_⟩
  · exact ⟨⟨header, List.replicate 20 0, List.replicate 20 0, some ⟨0, 7, "CASH"⟩, "", [1]⟩,
      ⟨header, List.replicate 20 0, List.replicate 20 0, some ⟨0, 7, "CASH"⟩, "", []⟩,
      .send {
        sender := "tiov1qqqqqqqqqqqqqqqqqqqqqqqqqqqqqqqqzx8n0d"
        recipient := "tiov1qqqqqqqqqqqqqqqqqqqqqqqqqqqqqqqqzx8n0d"
        amount := ⟨"7", 9, "CASH"⟩
        memo := none },
      by decide +kernel, by decide +kernel, by decide +kernel, rfl, by decide⟩
  · let low : ValidatorUpdate := ⟨some ⟨"ed25519", List.replicate 32 0⟩, 1⟩
    let high (power : Int64) : ValidatorUpdate := ⟨some ⟨"ed25519", List.replicate 32 1⟩, power⟩
    exact ⟨⟨header, [high 5, low, high 2]⟩, ⟨header, [low, high 2]⟩,
      .enact (.setValidators (.ofList [Validator.entry low, Validator.entry (high 2)])),
      by decide +kernel, by decide +kernel, by decide +kernel, rfl, by decide⟩
  · let low : Wire.Elector := ⟨List.replicate 20 0, 1⟩
    let high (weight : UInt32) : Wire.Elector := ⟨List.replicate 20 1, weight⟩
    exact ⟨⟨header, [0, 0, 0, 0, 0, 0, 0, 1], [high 5, low, high 2]⟩,
      ⟨header, [0, 0, 0, 0, 0, 0, 0, 1], [low, high 2]⟩,
      .enact (.updateElectorate 1 (.ofList [Elector.entry .testnet low,
        Elector.entry .testnet (high 2)])),
      by decide +kernel, by decide +kernel, by decide +kernel, rfl, by decide⟩

end NameService
