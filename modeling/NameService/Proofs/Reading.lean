import Mathlib.Data.Option.Basic
import NameService.Proofs.Agreement
import NameService.Proofs.Fields
import NameService.Transaction.Envelope

/-
  What is read from which wire message.

  `X.Reads m x` says field by field how `x` stands for the message `m`, without the
  steps and the errors of the reader. A field holds the same thing on both sides in
  another form: a hash is spelled as an address, eight bytes are a number, a coin is
  an amount. What is proved:
    1. `X.reads_of_ofWire` — whatever is read from a message stands for it in this
       way, up to `SignedTransaction.reads_of_decode`.

  Nothing is said of headers, of the reference of a transfer, of the scheme of a
  validator's key, and of the coins after the first that an action releases: no
  reader looks at them.
-/

namespace NameService

open Result

variable {network : Network}

/-! ## Fields -/

namespace Check

theorem given_eq_ok {α : Type} {field : String} {o : Option α} {a : α} :
    given field o = .ok a ↔ o = some a := by
  cases o with
  | none => simp [given]
  | some b => simp [given]

theorem fixed_eq_ok {field : String} {length : Nat} {bs cs : Bytes} :
    fixed field length bs = .ok cs ↔ bs ≠ [] ∧ bs.length = length ∧ bs = cs := by
  simp only [fixed, bind_eq_ok, present_eq_ok, exactly_eq_ok]
  constructor
  · rintro ⟨_, ⟨hne, rfl⟩, hlength, rfl⟩
    exact ⟨hne, hlength, rfl⟩
  · rintro ⟨hne, hlength, rfl⟩
    exact ⟨bs, ⟨hne, rfl⟩, hlength, rfl⟩

/-- What is read of an optional value, if each value is read by its rule. -/
theorem optionally_eq_ok {α β : Type} {f : α → Except Error β} {o : Option α} {x : Option β} :
    optionally f o = .ok x ↔ Option.Rel (fun a b => f a = .ok b) o x := by
  cases o with
  | none => cases x <;> simp [optionally]
  | some a => cases x <;> simp [optionally, map_eq_ok]

end Check

namespace Address

/-- A hash is spelled as an address of the network. -/
def Reads (network : Network) (hash : Bytes) (text : String) : Prop :=
  hash.length = length ∧ Bech32.encode network.hrp hash = text

/-- The same of a hash that may be absent, which an empty one is. -/
def Reads? (network : Network) (hash : Bytes) : Option String → Prop
  | none => hash = []
  | some text => Reads network hash text

/-- What is written for a hash is its spelling. -/
theorem encode_eq_ok {hash : Bytes} {text : String} :
    encode network hash = .ok text ↔ Reads network hash text := by
  unfold encode Reads
  split
  · next hlength => simp [hlength]
  · next hlength => simp [hlength]

/-- A hash is read from its spelling. -/
theorem Reads.decodeFor {hash : Bytes} {text : String} (h : Reads network hash text) :
    decodeFor network text = .ok hash := by
  obtain ⟨hlength, rfl⟩ := h
  exact decodeFor_encode hlength

theorem Reads?.decodeFor? {hash : Bytes} {o : Option String} (h : Reads? network hash o) :
    decodeFor? network o = .ok hash := by
  cases o with
  | none =>
    obtain rfl : hash = [] := h
    rfl
  | some text => exact Reads.decodeFor h

/-- No network spells two hashes alike. -/
theorem Reads.inj {hash hash' : Bytes} {text : String} (h : Reads network hash text)
    (h' : Reads network hash' text) : hash = hash' :=
  Except.ok.inj (h.decodeFor.symm.trans h'.decodeFor)

theorem Reads?.inj {hash hash' : Bytes} {o : Option String} (h : Reads? network hash o)
    (h' : Reads? network hash' o) : hash = hash' := by
  cases o with
  | none => exact h.trans h'.symm
  | some text => exact Reads.inj h h'

theorem reads_of_ofField {field : String} {hash : Bytes} {text : String}
    (h : ofField network field hash = .ok text) : Reads network hash text := by
  obtain ⟨bs, hbs, htext⟩ := bind_eq_ok.mp h
  obtain ⟨-, -, rfl⟩ := Check.fixed_eq_ok.mp hbs
  exact encode_eq_ok.mp htext

theorem reads_of_ofField? {field : String} {hash : Bytes} {o : Option String}
    (h : ofField? network field hash = .ok o) : Reads? network hash o := by
  rw [ofField?] at h
  split at h
  · next hempty =>
    obtain rfl := Except.ok.inj h
    exact List.isEmpty_iff.mp hempty
  · obtain ⟨text, htext, rfl⟩ := map_eq_ok.mp h
    exact reads_of_ofField htext

end Address

namespace Amount

/-- A coin that must be there is read. -/
def Reads (c : Option Wire.Coin) (a : Amount) : Prop :=
  ∃ coin, c = some coin ∧ ofCoin coin = .ok a

theorem reads_of_ofField {field : String} {c : Option Wire.Coin} {a : Amount}
    (h : ofField field c = .ok a) : Reads c a := by
  obtain ⟨coin, hcoin, ha⟩ := bind_eq_ok.mp h
  exact ⟨coin, Check.given_eq_ok.mp hcoin, ha⟩

/-- A coin is written again from the amount that it is read as. -/
theorem toCoin_of_ofCoin {c : Wire.Coin} {a : Amount} (h : ofCoin c = .ok a) :
    a.toCoin = .ok c := by
  rw [ofCoin] at h
  split at h
  · cases h
  · next hwhole =>
    split at h
    · cases h
    · next hfractional =>
      split at h
      · cases h
      · next hunit =>
        obtain rfl := Except.ok.inj h
        -- whole units and billionths are the quotient and the remainder of their sum
        have hlt : c.fractional.toInt.toNat < unit := Nat.not_le.mp hunit
        have hdiv : (c.whole.toInt.toNat * unit + c.fractional.toInt.toNat) / unit =
            c.whole.toInt.toNat := by
          rw [Nat.mul_comm, Nat.mul_add_div (by decide), Nat.div_eq_of_lt hlt, Nat.add_zero]
        have hmod : (c.whole.toInt.toNat * unit + c.fractional.toInt.toNat) % unit =
            c.fractional.toInt.toNat := by
          rw [Nat.mul_comm, Nat.mul_add_mod, Nat.mod_eq_of_lt hlt]
        have hback : ∀ x : Int64, ¬ x.toInt < 0 → Int64.ofNat x.toInt.toNat = x := by
          intro x hx
          exact Int64.ofNat_toNatClampNeg x (Int64.le_iff_toInt_le.mpr (Int.not_lt.mp hx))
        have hrange : c.whole.toInt < 2 ^ 63 := Int64.toInt_lt _
        refine toCoin_eq_ok.mpr ⟨rfl, _, Decimal.ofText?_toText _, ?_, ?_⟩
        · rw [hdiv]
          omega
        · rw [hdiv, hmod, hback _ hwhole, hback _ hfractional]

end Amount

/-- An id is read from exactly the bytes that it is written as. -/
theorem Id.encode_of_ofField {field : String} {bs : Bytes} {id : UInt64}
    (h : ofField field bs = .ok id) : encode id = bs := by
  obtain ⟨_, hpresent, hdecode⟩ := bind_eq_ok.mp h
  obtain ⟨-, rfl⟩ := Check.present_eq_ok.mp hpresent
  exact (keyCodec field).decode_eq_ok.mp hdecode

theorem Selection.number_of_ofNumber {n : Int32} {s : Selection} (h : ofNumber n = .ok s) :
    s.number = n := by
  rw [ofNumber] at h
  -- the branches are those of the choices, apart from the failures
  split at h
  · cases h
  · split at h
    · next hn => exact Except.ok.inj h ▸ hn.symm
    · split at h
      · next hn => exact Except.ok.inj h ▸ hn.symm
      · split at h
        · next hn => exact Except.ok.inj h ▸ hn.symm
        · cases h

/-- A fraction is read from the message with its two numbers. -/
theorem Fraction.eq_of_ofWire {m : Wire.Fraction} {f : Fraction} (h : ofWire m = .ok f) :
    f.denominator ≠ 0 ∧ ⟨f.numerator, f.denominator⟩ = m := by
  rw [ofWire, check] at h
  split at h
  · cases h
  · next hne =>
    obtain rfl := Except.ok.inj h
    exact ⟨hne, rfl⟩

theorem Target.map_toWire_ofWire (ms : List Wire.Target) :
    (ms.map ofWire).map toWire = ms := by
  rw [List.map_map]
  exact List.map_id ms

namespace MessageFee

def Reads (m : Wire.MessageFee) (f : MessageFee) : Prop :=
  m.messagePath = f.path ∧ Amount.Reads m.fee f.fee

theorem reads_of_mapM {ms : List Wire.MessageFee} {fees : List MessageFee}
    (h : ms.mapM ofWire = .ok fees) : List.Forall₂ Reads ms fees := by
  refine (mapM_eq_ok.mp h).imp fun m f hf => ?_
  obtain ⟨fee, hfee, hmk⟩ := bind_eq_ok.mp hf
  obtain rfl := pure_eq_ok.mp hmk
  exact ⟨rfl, Amount.reads_of_ofField hfee⟩

end MessageFee

namespace Participant

def Reads (network : Network) (m : Wire.Participant) (p : Participant) : Prop :=
  Address.Reads network m.signature p.address ∧ m.weight = p.weight

theorem reads_of_ofWire {position : Nat} {m : Wire.Participant} {p : Participant}
    (h : ofWire network position m = .ok p) : Reads network m p := by
  obtain ⟨address, haddress, hmk⟩ := bind_eq_ok.mp h
  obtain rfl := pure_eq_ok.mp hmk
  exact ⟨Address.reads_of_ofField haddress, rfl⟩

theorem reads_of_listOfWire {ms : List Wire.Participant} {ps : List Participant}
    (h : listOfWire network ms = .ok ps) : List.Forall₂ (Reads network) ms ps := by
  have hindexed := mapM_eq_ok.mp h
  -- the position of a participant matters for errors only
  have hreads : List.Forall₂ (fun e p => Reads network e.1 p) ms.zipIdx ps :=
    hindexed.imp fun e p he => reads_of_ofWire he
  have hmap := List.forall₂_map_left_iff.mpr hreads
  rwa [List.zipIdx_map_fst] at hmap

end Participant

/-! ## Maps -/

namespace Elector

/-- What a message adds to a map of electors: a weight under a spelled hash. -/
def entry (network : Network) (m : Wire.Elector) : String × UInt32 :=
  (Bech32.encode network.hrp m.address, m.weight)

/-- A map is that of the entries of messages, all of which hold hashes. -/
def Reads (network : Network) (ms : List Wire.Elector) (electors : SortedMap UInt32) : Prop :=
  (∀ m ∈ ms, m.address.length = Address.length) ∧
    SortedMap.ofList (ms.map (entry network)) = electors

theorem map_entry_of_mapM {ms : List Wire.Elector} {entries : List (String × UInt32)}
    (h : ms.mapM (updateOfWire network) = .ok entries) :
    (∀ m ∈ ms, m.address.length = Address.length) ∧ ms.map (entry network) = entries := by
  refine forall₂_and_eq_iff.mp ((mapM_eq_ok.mp h).imp fun m e he => ?_)
  obtain ⟨address, haddress, hmk⟩ := bind_eq_ok.mp he
  obtain rfl := pure_eq_ok.mp hmk
  obtain ⟨hlength, rfl⟩ := Address.reads_of_ofField haddress
  exact ⟨hlength, rfl⟩

theorem reads_of_updatesOfWire {ms : List Wire.Elector} {electors : SortedMap UInt32}
    (h : updatesOfWire network ms = .ok electors) : Reads network ms electors := by
  obtain ⟨entries, hentries, hmap⟩ := bind_eq_ok.mp h
  obtain rfl := pure_eq_ok.mp hmap
  obtain ⟨hlengths, rfl⟩ := map_entry_of_mapM hentries
  exact ⟨hlengths, rfl⟩

end Elector

namespace Validator

/-- The key in a message, without its scheme; of an absent key nothing. -/
def keyOf (m : Wire.ValidatorUpdate) : Bytes :=
  (m.publicKey.map (·.data)).getD []

theorem keyOf_ne_nil_iff {u : Wire.ValidatorUpdate} :
    keyOf u ≠ [] ↔ ∃ key, u.publicKey = some key ∧ key.data ≠ [] := by
  rw [keyOf]
  cases u.publicKey <;> simp

/-- What a message adds to a map of validators: a power under the name of a key. -/
def entry (m : Wire.ValidatorUpdate) : String × Int64 :=
  (name (keyOf m), m.power)

/-- A map is that of the entries of messages, all of which hold keys. -/
def Reads (ms : List Wire.ValidatorUpdate) (updates : SortedMap Int64) : Prop :=
  (∀ m ∈ ms, keyOf m ≠ []) ∧ SortedMap.ofList (ms.map entry) = updates

theorem updateOfWire_eq_ok {m : Wire.ValidatorUpdate} {e : String × Int64} :
    updateOfWire m = .ok e ↔ keyOf m ≠ [] ∧ entry m = e := by
  simp only [updateOfWire, bind_eq_ok, Check.given_eq_ok, Check.present_eq_ok, pure_eq_ok]
  constructor
  · intro h
    obtain ⟨key, hkey, _, ⟨hne, rfl⟩, rfl⟩ := h
    simp [keyOf, entry, hkey, hne]
  · intro h
    obtain ⟨hne, rfl⟩ := h
    obtain ⟨key, hkey, hdata⟩ := keyOf_ne_nil_iff.mp hne
    exact ⟨key, hkey, key.data, ⟨hdata, rfl⟩, by simp [entry, keyOf, hkey]⟩

/-- Messages are read exactly if they hold keys. -/
theorem updatesOfWire_eq_ok {ms : List Wire.ValidatorUpdate} {updates : SortedMap Int64} :
    updatesOfWire ms = .ok updates ↔ Reads ms updates := by
  simp only [updatesOfWire, bind_eq_ok, mapM_eq_ok, updateOfWire_eq_ok, forall₂_and_eq_iff,
    pure_eq_ok]
  constructor
  · intro h
    obtain ⟨_, ⟨hkeys, rfl⟩, hmap⟩ := h
    exact ⟨hkeys, hmap⟩
  · intro h
    obtain ⟨hkeys, hmap⟩ := h
    exact ⟨_, ⟨hkeys, rfl⟩, hmap⟩

end Validator

/-! ## Actions -/

structure Transfer.Reads (network : Network) (m : Wire.Send) (t : Transfer) : Prop where
  sender : Address.Reads network m.source t.sender
  recipient : Address.Reads network m.destination t.recipient
  amount : Amount.Reads m.amount t.amount
  memo : Memo.decode m.memo = t.memo

theorem Transfer.reads_of_ofWire {m : Wire.Send} {t : Transfer}
    (h : ofWire network m = .ok t) : Reads network m t := by
  simp only [ofWire, bind_eq_ok, pure_eq_ok] at h
  obtain ⟨sender, hsender, recipient, hrecipient, amount, hamount, rfl⟩ := h
  exact ⟨Address.reads_of_ofField hsender, Address.reads_of_ofField hrecipient,
    Amount.reads_of_ofField hamount, rfl⟩

structure AccountConfiguration.Reads (network : Network) (m : Wire.AccountConfiguration)
    (c : AccountConfiguration) : Prop where
  owner : Address.Reads network m.owner c.owner
  validDomain : m.validDomain = c.validDomain
  validName : m.validName = c.validName
  validBlockchainId : m.validBlockchainId = c.validBlockchainId
  validBlockchainAddress : m.validBlockchainAddress = c.validBlockchainAddress
  domainRenew : m.domainRenew = c.domainRenew

theorem AccountConfiguration.reads_of_ofUpdate {m : Wire.Update Wire.AccountConfiguration}
    {c : AccountConfiguration} (h : ofUpdate network m = .ok c) :
    ∃ patch, m.patch = some patch ∧ Reads network patch c := by
  simp only [ofUpdate, ofWire, bind_eq_ok, pure_eq_ok, Check.given_eq_ok] at h
  obtain ⟨patch, hpatch, owner, howner, rfl⟩ := h
  exact ⟨patch, hpatch, Address.reads_of_ofField howner, rfl, rfl, rfl, rfl, rfl⟩

/-- A place in a batch that holds a transfer. -/
inductive Action.MemberReads (network : Network) : Wire.BatchPlace → Action → Prop
  | send {m : Wire.Send} {t : Transfer} (h : Transfer.Reads network m t) :
    MemberReads network ⟨some (.send m)⟩ (.enact (.send t))

/-- Which message an action is read from. -/
inductive Action.Reads (network : Network) : Wire.ProposalOption → Action → Prop
  | textResolution {m : Wire.TextResolution} {resolution : String}
    (h : m.resolution = resolution) :
    Reads network (.textResolution m) (.enact (.textResolution resolution))
  | batch {m : Wire.Batch} {members : List Action}
    (h : List.Forall₂ (MemberReads network) m.messages members) :
    Reads network (.batch m) (.batch members)
  | releaseEscrow {m : Wire.ReleaseEscrow} {coin : Wire.Coin} {escrowId : UInt64} {amount : Amount}
    (hid : Id.encode escrowId = m.escrowId) (hcoin : m.amount.head? = some coin)
    (hamount : Amount.ofCoin coin = .ok amount) :
    Reads network (.releaseEscrow m) (.enact (.releaseEscrow escrowId amount))
  | send {m : Wire.Send} {t : Transfer} (h : Transfer.Reads network m t) :
    Reads network (.send m) (.enact (.send t))
  | applyDiff {m : Wire.ApplyDiff} {updates : SortedMap Int64}
    (h : Validator.Reads m.validatorUpdates updates) :
    Reads network (.applyDiff m) (.enact (.setValidators updates))
  | updateElectionRule {m : Wire.UpdateElectionRule} {rule : ElectionRuleUpdate}
    (hid : Id.encode rule.electionRuleId = m.electionRuleId)
    (hthreshold : Option.Rel (fun w f => Fraction.ofWire w = .ok f) m.threshold rule.threshold)
    (hquorum : Option.Rel (fun w f => Fraction.ofWire w = .ok f) m.quorum rule.quorum)
    (hperiod : m.votingPeriod = rule.votingPeriod) :
    Reads network (.updateElectionRule m) (.enact (.updateElectionRule rule))
  | updateElectorate {m : Wire.UpdateElectorate} {electorateId : UInt64}
    {electors : SortedMap UInt32} (hid : Id.encode electorateId = m.electorateId)
    (helectors : Elector.Reads network m.diffElectors electors) :
    Reads network (.updateElectorate m) (.enact (.updateElectorate electorateId electors))
  | setMessageFee {m : Wire.SetMessageFee} {path : String} {fee : Amount}
    (hpath : m.messagePath = path) (hfee : Amount.Reads m.fee fee) :
    Reads network (.setMessageFee m) (.enact (.setMessageFee path fee))
  | executeMigration {m : Wire.ExecuteMigration} {id : String} (hid : m.migrationId = id)
    (hne : id ≠ "") : Reads network (.executeMigration m) (.enact (.executeMigration id))
  | upgradeSchema {m : Wire.UpgradeSchema} {package : String} {toVersion : UInt32}
    (hpackage : m.package = package) (hversion : m.toVersion = toVersion) :
    Reads network (.upgradeSchema m) (.enact (.upgradeSchema package toVersion))
  | updateCash {m : Wire.Update Wire.CashConfiguration} {patch : Wire.CashConfiguration}
    {c : CashConfiguration} (hpatch : m.patch = some patch)
    (howner : Address.Reads network patch.owner c.owner)
    (hcollector : Address.Reads network patch.collectorAddress c.collectorAddress)
    (hfee : Option.Rel (fun coin a => Amount.ofCoin coin = .ok a) patch.minimalFee c.minimalFee) :
    Reads network (.updateCash m) (.enact (.configureCash c))
  | updateTxFee {m : Wire.Update Wire.TxFeeConfiguration} {patch : Wire.TxFeeConfiguration}
    {c : TxFeeConfiguration} (hpatch : m.patch = some patch)
    (howner : Address.Reads network patch.owner c.owner) (hfree : patch.freeBytes = c.freeBytes)
    (hfee : Option.Rel (fun coin a => Amount.ofCoin coin = .ok a) patch.baseFee c.baseFee) :
    Reads network (.updateTxFee m) (.enact (.configureTxFee c))
  | updateUsername {m : Wire.Update Wire.UsernameConfiguration}
    {patch : Wire.UsernameConfiguration} {c : UsernameConfiguration} (hpatch : m.patch = some patch)
    (howner : Address.Reads network patch.owner c.owner)
    (hname : patch.validUsernameName = c.validUsernameName)
    (hlabel : patch.validUsernameLabel = c.validUsernameLabel) :
    Reads network (.updateUsername m) (.enact (.configureUsernames c))
  | updateAccount {m : Wire.Update Wire.AccountConfiguration} {patch : Wire.AccountConfiguration}
    {c : AccountConfiguration} (hpatch : m.patch = some patch)
    (h : AccountConfiguration.Reads network patch c) :
    Reads network (.updateAccount m) (.enact (.configureAccounts c))
  | updateMessageFee {m : Wire.Update Wire.MessageFeeConfiguration}
    {patch : Wire.MessageFeeConfiguration} {c : MessageFeeConfiguration}
    (hpatch : m.patch = some patch) (howner : Address.Reads network patch.owner c.owner)
    (hfeeAdmin : Address.Reads network patch.feeAdmin c.feeAdmin) :
    Reads network (.updateMessageFee m) (.enact (.configureMessageFees c))

theorem Action.memberReads_of_memberOfWire {place : Wire.BatchPlace} {member : Action}
    (h : memberOfWire network place = .ok member) : MemberReads network place member := by
  unfold memberOfWire at h
  split at h
  · next m =>
    simp only [transferOfWire_eq, bind_eq_ok, pure_eq_ok] at h
    obtain ⟨t, ht, rfl⟩ := h
    exact .send (Transfer.reads_of_ofWire ht)
  · cases h

/-- Whatever is read as an action stands for it. -/
theorem Action.reads_of_ofWire {w : Wire.ProposalOption} {action : Action}
    (h : ofWire network w = .ok action) : Reads network w action := by
  cases w with
  | textResolution m =>
    obtain rfl := pure_eq_ok.mp h
    exact .textResolution rfl
  | batch m =>
    simp only [ofWire, bind_eq_ok, pure_eq_ok] at h
    obtain ⟨members, hmembers, rfl⟩ := h
    exact .batch ((mapM_eq_ok.mp hmembers).imp fun _ _ => memberReads_of_memberOfWire)
  | releaseEscrow m =>
    simp only [ofWire, bind_eq_ok, pure_eq_ok, Check.given_eq_ok] at h
    obtain ⟨coin, hcoin, escrowId, hid, amount, hamount, rfl⟩ := h
    exact .releaseEscrow (Id.encode_of_ofField hid) hcoin hamount
  | send m =>
    simp only [ofWire, transferOfWire_eq, bind_eq_ok, pure_eq_ok] at h
    obtain ⟨t, ht, rfl⟩ := h
    exact .send (Transfer.reads_of_ofWire ht)
  | applyDiff m =>
    simp only [ofWire, bind_eq_ok, pure_eq_ok] at h
    obtain ⟨updates, hupdates, rfl⟩ := h
    exact .applyDiff (Validator.updatesOfWire_eq_ok.mp hupdates)
  | updateElectionRule m =>
    simp only [ofWire, bind_eq_ok, pure_eq_ok] at h
    obtain ⟨id, hid, threshold, hthreshold, quorum, hquorum, rfl⟩ := h
    exact .updateElectionRule (Id.encode_of_ofField hid) (Check.optionally_eq_ok.mp hthreshold)
      (Check.optionally_eq_ok.mp hquorum) rfl
  | updateElectorate m =>
    simp only [ofWire, bind_eq_ok, pure_eq_ok] at h
    obtain ⟨id, hid, electors, helectors, rfl⟩ := h
    exact .updateElectorate (Id.encode_of_ofField hid) (Elector.reads_of_updatesOfWire helectors)
  | setMessageFee m =>
    simp only [ofWire, bind_eq_ok, pure_eq_ok] at h
    obtain ⟨fee, hfee, rfl⟩ := h
    exact .setMessageFee rfl (Amount.reads_of_ofField hfee)
  | executeMigration m =>
    rw [ofWire] at h
    by_cases hid : m.migrationId = ""
    · rw [if_pos hid] at h
      cases h
    · rw [if_neg hid] at h
      obtain rfl := pure_eq_ok.mp h
      exact .executeMigration rfl hid
  | upgradeSchema m =>
    obtain rfl := pure_eq_ok.mp h
    exact .upgradeSchema rfl rfl
  | updateCash m =>
    simp only [ofWire, bind_eq_ok, pure_eq_ok, Check.given_eq_ok] at h
    obtain ⟨patch, hpatch, owner, howner, collector, hcollector, fee, hfee, rfl⟩ := h
    exact .updateCash hpatch (Address.reads_of_ofField howner)
      (Address.reads_of_ofField hcollector) (Check.optionally_eq_ok.mp hfee)
  | updateTxFee m =>
    simp only [ofWire, bind_eq_ok, pure_eq_ok, Check.given_eq_ok] at h
    obtain ⟨patch, hpatch, owner, howner, fee, hfee, rfl⟩ := h
    exact .updateTxFee hpatch (Address.reads_of_ofField howner) rfl
      (Check.optionally_eq_ok.mp hfee)
  | updateUsername m =>
    simp only [ofWire, bind_eq_ok, pure_eq_ok, Check.given_eq_ok] at h
    obtain ⟨patch, hpatch, owner, howner, rfl⟩ := h
    exact .updateUsername hpatch (Address.reads_of_ofField howner) rfl rfl
  | updateAccount m =>
    simp only [ofWire_updateAccount, bind_eq_ok, pure_eq_ok] at h
    obtain ⟨c, hc, rfl⟩ := h
    obtain ⟨patch, hpatch, hreads⟩ := AccountConfiguration.reads_of_ofUpdate hc
    exact .updateAccount hpatch hreads
  | updateMessageFee m =>
    simp only [ofWire, bind_eq_ok, pure_eq_ok, Check.given_eq_ok] at h
    obtain ⟨patch, hpatch, owner, howner, feeAdmin, hfeeAdmin, rfl⟩ := h
    exact .updateMessageFee hpatch (Address.reads_of_ofField howner)
      (Address.reads_of_ofField hfeeAdmin)

/-- The bytes of an action hold a message that the action is read from. -/
def Action.ReadsBytes (network : Network) (bs : Bytes) (action : Action) : Prop :=
  ∃ w, Wire.Message.decode? bs = some (⟨some w⟩ : Wire.ProposalOptions) ∧ Reads network w action

theorem Action.readsBytes_of_decode {bs : Bytes} {action : Action}
    (h : decode network bs = .ok action) : ReadsBytes network bs action := by
  rw [decode] at h
  split at h
  · cases h
  · cases h
  · next w hw => exact ⟨w, hw, reads_of_ofWire h⟩

/-! ## Operations -/

structure SwapOffer.Reads (network : Network) (m : Wire.CreateSwap) (o : SwapOffer) : Prop where
  sender : Address.Reads network m.source o.sender
  recipient : Address.Reads network m.destination o.recipient
  amounts : List.Forall₂ (fun c a => Amount.ofCoin c = .ok a) m.amount o.amounts
  hash : m.preimageHash = o.hash
  length : o.hash.length = swapHashLength
  timeout : m.timeout = o.timeout
  memo : Memo.decode m.memo = o.memo

theorem SwapOffer.reads_of_ofWire {m : Wire.CreateSwap} {o : SwapOffer}
    (h : ofWire network m = .ok o) : Reads network m o := by
  simp only [ofWire, bind_eq_ok, pure_eq_ok, Check.fixed_eq_ok, mapM_eq_ok] at h
  obtain ⟨sender, hsender, recipient, hrecipient, amounts, hamounts, _, ⟨-, hlength, rfl⟩, rfl⟩ := h
  exact ⟨Address.reads_of_ofField hsender, Address.reads_of_ofField hrecipient, hamounts, rfl,
    hlength, rfl, rfl⟩

structure DomainRegistration.Reads (network : Network) (m : Wire.RegisterDomain)
    (r : DomainRegistration) : Prop where
  domain : m.domain = r.domain
  admin : Address.Reads network m.admin r.admin
  hasSuperuser : m.hasSuperuser = r.hasSuperuser
  broker : Address.Reads? network m.thirdPartyToken r.broker
  messageFees : List.Forall₂ MessageFee.Reads m.messageFees r.messageFees
  accountRenew : m.accountRenew = r.accountRenew

theorem DomainRegistration.reads_of_ofWire {m : Wire.RegisterDomain} {r : DomainRegistration}
    (h : ofWire network m = .ok r) : Reads network m r := by
  simp only [ofWire, bind_eq_ok, pure_eq_ok] at h
  obtain ⟨admin, hadmin, broker, hbroker, fees, hfees, rfl⟩ := h
  exact ⟨rfl, Address.reads_of_ofField hadmin, rfl, Address.reads_of_ofField? hbroker,
    MessageFee.reads_of_mapM hfees, rfl⟩

structure AccountRegistration.Reads (network : Network) (m : Wire.RegisterAccount)
    (r : AccountRegistration) : Prop where
  domain : m.domain = r.domain
  name : m.name = r.name
  owner : Address.Reads network m.owner r.owner
  targets : m.targets = r.targets.map Target.toWire
  broker : Address.Reads? network m.thirdPartyToken r.broker

theorem AccountRegistration.reads_of_ofWire {m : Wire.RegisterAccount} {r : AccountRegistration}
    (h : ofWire network m = .ok r) : Reads network m r := by
  simp only [ofWire, bind_eq_ok, pure_eq_ok] at h
  obtain ⟨owner, howner, broker, hbroker, rfl⟩ := h
  exact ⟨rfl, rfl, Address.reads_of_ofField howner, (Target.map_toWire_ofWire _).symm,
    Address.reads_of_ofField? hbroker⟩

structure EscrowCreation.Reads (network : Network) (m : Wire.CreateEscrow)
    (e : EscrowCreation) : Prop where
  sender : Address.Reads network m.source e.sender
  arbiter : Address.Reads network m.arbiter e.arbiter
  recipient : Address.Reads network m.destination e.recipient
  amounts : List.Forall₂ (fun c a => Amount.ofCoin c = .ok a) m.amount e.amounts
  timeout : m.timeout = e.timeout
  memo : Memo.decode m.memo = e.memo

theorem EscrowCreation.reads_of_ofWire {m : Wire.CreateEscrow} {e : EscrowCreation}
    (h : ofWire network m = .ok e) : Reads network m e := by
  simp only [ofWire, bind_eq_ok, pure_eq_ok, mapM_eq_ok] at h
  obtain ⟨sender, hsender, arbiter, harbiter, recipient, hrecipient, amounts, hamounts, rfl⟩ := h
  exact ⟨Address.reads_of_ofField hsender, Address.reads_of_ofField harbiter,
    Address.reads_of_ofField hrecipient, hamounts, rfl, rfl⟩

structure EscrowParties.Reads (network : Network) (m : Wire.UpdateEscrowParties)
    (p : EscrowParties) : Prop where
  escrowId : Id.encode p.escrowId = m.escrowId
  sender : Address.Reads? network m.source p.sender
  arbiter : Address.Reads? network m.arbiter p.arbiter
  recipient : Address.Reads? network m.destination p.recipient

theorem EscrowParties.reads_of_ofWire {m : Wire.UpdateEscrowParties} {p : EscrowParties}
    (h : ofWire network m = .ok p) : Reads network m p := by
  simp only [ofWire, bind_eq_ok, pure_eq_ok] at h
  obtain ⟨id, hid, sender, hsender, arbiter, harbiter, recipient, hrecipient, rfl⟩ := h
  exact ⟨Id.encode_of_ofField hid, Address.reads_of_ofField? hsender,
    Address.reads_of_ofField? harbiter, Address.reads_of_ofField? hrecipient⟩

structure Proposal.Reads (network : Network) (m : Wire.CreateProposal) (p : Proposal) : Prop where
  title : m.title = p.title
  action : Action.ReadsBytes network m.rawOption p.action
  description : m.description = p.description
  electionRuleId : Id.encode p.electionRuleId = m.electionRuleId
  startTime : m.startTime = p.startTime
  author : Address.Reads network m.author p.author

theorem Proposal.reads_of_ofWire {m : Wire.CreateProposal} {p : Proposal}
    (h : ofWire network m = .ok p) : Reads network m p := by
  simp only [ofWire, bind_eq_ok, pure_eq_ok, Check.present_eq_ok] at h
  obtain ⟨_, ⟨-, rfl⟩, action, haction, id, hid, author, hauthor, rfl⟩ := h
  exact ⟨rfl, Action.readsBytes_of_decode haction, rfl, Id.encode_of_ofField hid, rfl,
    Address.reads_of_ofField hauthor⟩

structure Vote.Reads (network : Network) (m : Wire.Vote) (v : Vote) : Prop where
  proposalId : Id.encode v.proposalId = m.proposalId
  selection : v.selection.number = m.selected
  voter : Address.Reads? network m.voter v.voter

theorem Vote.reads_of_ofWire {m : Wire.Vote} {v : Vote} (h : ofWire network m = .ok v) :
    Reads network m v := by
  simp only [ofWire, bind_eq_ok, pure_eq_ok] at h
  obtain ⟨voter, hvoter, id, hid, selection, hselection, rfl⟩ := h
  exact ⟨Id.encode_of_ofField hid, Selection.number_of_ofNumber hselection,
    Address.reads_of_ofField? hvoter⟩

/-- Which message an operation is read from. -/
inductive Operation.Reads (network : Network) : Wire.Body → Operation → Prop
  | send {m : Wire.Send} {t : Transfer} (h : Transfer.Reads network m t) :
    Reads network (.send m) (.send t)
  | createSwap {m : Wire.CreateSwap} {o : SwapOffer} (h : SwapOffer.Reads network m o) :
    Reads network (.createSwap m) (.swapOffer o)
  | releaseSwap {m : Wire.ReleaseSwap} {swapId preimage : Bytes} (hid : m.swapId = swapId)
    (hidLength : swapId.length = swapIdLength) (hpreimage : m.preimage = preimage)
    (hlength : preimage.length = swapHashLength) :
    Reads network (.releaseSwap m) (.swapClaim swapId preimage)
  | returnSwap {m : Wire.Reference} {swapId : Bytes} (hid : m.id = swapId)
    (hlength : swapId.length = swapIdLength) : Reads network (.returnSwap m) (.swapAbort swapId)
  | registerUsername {m : Wire.UsernameTargets} {username : String} {targets : List Target}
    (husername : m.username = username) (htargets : m.targets = targets.map Target.toWire) :
    Reads network (.registerUsername m) (.registerUsername username targets)
  | changeUsernameTargets {m : Wire.UsernameTargets} {username : String} {targets : List Target}
    (husername : m.username = username) (htargets : m.targets = targets.map Target.toWire) :
    Reads network (.changeUsernameTargets m) (.updateUsernameTargets username targets)
  | transferUsername {m : Wire.TransferUsername} {username newOwner : String}
    (husername : m.username = username) (howner : Address.Reads network m.newOwner newOwner) :
    Reads network (.transferUsername m) (.transferUsername username newOwner)
  | updateAccountConfiguration {m : Wire.Update Wire.AccountConfiguration}
    {patch : Wire.AccountConfiguration} {c : AccountConfiguration} (hpatch : m.patch = some patch)
    (h : AccountConfiguration.Reads network patch c) :
    Reads network (.updateAccountConfiguration m) (.updateAccountConfiguration c)
  | registerDomain {m : Wire.RegisterDomain} {r : DomainRegistration}
    (h : DomainRegistration.Reads network m r) :
    Reads network (.registerDomain m) (.registerDomain r)
  | transferDomain {m : Wire.TransferDomain} {domain newAdmin : String}
    (hdomain : m.domain = domain) (hadmin : Address.Reads network m.newAdmin newAdmin) :
    Reads network (.transferDomain m) (.transferDomain domain newAdmin)
  | renewDomain {m : Wire.DomainReference} {domain : String} (hdomain : m.domain = domain) :
    Reads network (.renewDomain m) (.renewDomain domain)
  | deleteDomain {m : Wire.DomainReference} {domain : String} (hdomain : m.domain = domain) :
    Reads network (.deleteDomain m) (.deleteDomain domain)
  | registerAccount {m : Wire.RegisterAccount} {r : AccountRegistration}
    (h : AccountRegistration.Reads network m r) :
    Reads network (.registerAccount m) (.registerAccount r)
  | transferAccount {m : Wire.TransferAccount} {domain name newOwner : String}
    (hdomain : m.domain = domain) (hname : m.name = name)
    (howner : Address.Reads network m.newOwner newOwner) :
    Reads network (.transferAccount m) (.transferAccount domain name newOwner)
  | replaceTargets {m : Wire.ReplaceTargets} {domain name : String} {targets : List Target}
    (hdomain : m.domain = domain) (hname : m.name = name)
    (htargets : m.newTargets = targets.map Target.toWire) :
    Reads network (.replaceTargets m) (.replaceAccountTargets domain name targets)
  | deleteAccount {m : Wire.AccountReference} {domain name : String} (hdomain : m.domain = domain)
    (hname : m.name = name) : Reads network (.deleteAccount m) (.deleteAccount domain name)
  | flushDomain {m : Wire.DomainReference} {domain : String} (hdomain : m.domain = domain) :
    Reads network (.flushDomain m) (.deleteAllAccounts domain)
  | renewAccount {m : Wire.AccountReference} {domain name : String} (hdomain : m.domain = domain)
    (hname : m.name = name) : Reads network (.renewAccount m) (.renewAccount domain name)
  | addCertificate {m : Wire.AddCertificate} {domain name : String} {certificate : Bytes}
    (hdomain : m.domain = domain) (hname : m.name = name)
    (hcertificate : m.certificate = certificate) (hne : certificate ≠ []) :
    Reads network (.addCertificate m) (.addAccountCertificate domain name certificate)
  | replaceMessageFees {m : Wire.ReplaceMessageFees} {domain : String} {fees : List MessageFee}
    (hdomain : m.domain = domain) (hfees : List.Forall₂ MessageFee.Reads m.newMessageFees fees) :
    Reads network (.replaceMessageFees m) (.replaceAccountMessageFees domain fees)
  | deleteCertificate {m : Wire.DeleteCertificate} {domain name : String} {certificateHash : Bytes}
    (hdomain : m.domain = domain) (hname : m.name = name)
    (hhash : m.certificateHash = certificateHash) (hne : certificateHash ≠ []) :
    Reads network (.deleteCertificate m) (.deleteAccountCertificate domain name certificateHash)
  | createContract {m : Wire.CreateContract} {terms : ContractTerms}
    (hparticipants : List.Forall₂ (Participant.Reads network) m.participants terms.participants)
    (hactivation : m.activationThreshold = terms.activationThreshold)
    (hadmin : m.adminThreshold = terms.adminThreshold) :
    Reads network (.createContract m) (.createContract terms)
  | updateContract {m : Wire.UpdateContract} {contractId : UInt64} {terms : ContractTerms}
    (hid : Id.encode contractId = m.contractId)
    (hparticipants : List.Forall₂ (Participant.Reads network) m.participants terms.participants)
    (hactivation : m.activationThreshold = terms.activationThreshold)
    (hadmin : m.adminThreshold = terms.adminThreshold) :
    Reads network (.updateContract m) (.updateContract contractId terms)
  | createEscrow {m : Wire.CreateEscrow} {e : EscrowCreation}
    (h : EscrowCreation.Reads network m e) : Reads network (.createEscrow m) (.createEscrow e)
  | releaseEscrow {m : Wire.ReleaseEscrow} {escrowId : UInt64} {amounts : List Amount}
    (hid : Id.encode escrowId = m.escrowId)
    (hamounts : List.Forall₂ (fun c a => Amount.ofCoin c = .ok a) m.amount amounts) :
    Reads network (.releaseEscrow m) (.releaseEscrow escrowId amounts)
  | returnEscrow {m : Wire.Reference} {escrowId : UInt64} (hid : Id.encode escrowId = m.id) :
    Reads network (.returnEscrow m) (.returnEscrow escrowId)
  | updateEscrowParties {m : Wire.UpdateEscrowParties} {p : EscrowParties}
    (h : EscrowParties.Reads network m p) :
    Reads network (.updateEscrowParties m) (.updateEscrowParties p)
  | createProposal {m : Wire.CreateProposal} {p : Proposal} (h : Proposal.Reads network m p) :
    Reads network (.createProposal m) (.createProposal p)
  | vote {m : Wire.Vote} {v : Vote} (h : Vote.Reads network m v) :
    Reads network (.vote m) (.vote v)

/-- Whatever is read as an operation stands for it. -/
theorem Operation.reads_of_ofWire {body : Wire.Body} {operation : Operation}
    (h : ofWire network body = .ok operation) : Reads network body operation := by
  cases body with
  | send m =>
    simp only [ofWire, bind_eq_ok, pure_eq_ok] at h
    obtain ⟨t, ht, rfl⟩ := h
    exact .send (Transfer.reads_of_ofWire ht)
  | createSwap m =>
    simp only [ofWire, bind_eq_ok, pure_eq_ok] at h
    obtain ⟨o, ho, rfl⟩ := h
    exact .createSwap (SwapOffer.reads_of_ofWire ho)
  | releaseSwap m =>
    simp only [ofWire, bind_eq_ok, pure_eq_ok, Check.fixed_eq_ok] at h
    obtain ⟨_, ⟨-, hidLength, rfl⟩, _, ⟨-, hlength, rfl⟩, rfl⟩ := h
    exact .releaseSwap rfl hidLength rfl hlength
  | returnSwap m =>
    simp only [ofWire, bind_eq_ok, pure_eq_ok, Check.fixed_eq_ok] at h
    obtain ⟨_, ⟨-, hlength, rfl⟩, rfl⟩ := h
    exact .returnSwap rfl hlength
  | registerUsername m =>
    obtain rfl := pure_eq_ok.mp h
    exact .registerUsername rfl (Target.map_toWire_ofWire _).symm
  | changeUsernameTargets m =>
    obtain rfl := pure_eq_ok.mp h
    exact .changeUsernameTargets rfl (Target.map_toWire_ofWire _).symm
  | transferUsername m =>
    simp only [ofWire, bind_eq_ok, pure_eq_ok] at h
    obtain ⟨owner, howner, rfl⟩ := h
    exact .transferUsername rfl (Address.reads_of_ofField howner)
  | updateAccountConfiguration m =>
    simp only [ofWire, bind_eq_ok, pure_eq_ok] at h
    obtain ⟨c, hc, rfl⟩ := h
    obtain ⟨patch, hpatch, hreads⟩ := AccountConfiguration.reads_of_ofUpdate hc
    exact .updateAccountConfiguration hpatch hreads
  | registerDomain m =>
    simp only [ofWire, bind_eq_ok, pure_eq_ok] at h
    obtain ⟨r, hr, rfl⟩ := h
    exact .registerDomain (DomainRegistration.reads_of_ofWire hr)
  | transferDomain m =>
    simp only [ofWire, bind_eq_ok, pure_eq_ok] at h
    obtain ⟨admin, hadmin, rfl⟩ := h
    exact .transferDomain rfl (Address.reads_of_ofField hadmin)
  | renewDomain m =>
    obtain rfl := pure_eq_ok.mp h
    exact .renewDomain rfl
  | deleteDomain m =>
    obtain rfl := pure_eq_ok.mp h
    exact .deleteDomain rfl
  | registerAccount m =>
    simp only [ofWire, bind_eq_ok, pure_eq_ok] at h
    obtain ⟨r, hr, rfl⟩ := h
    exact .registerAccount (AccountRegistration.reads_of_ofWire hr)
  | transferAccount m =>
    simp only [ofWire, bind_eq_ok, pure_eq_ok] at h
    obtain ⟨owner, howner, rfl⟩ := h
    exact .transferAccount rfl rfl (Address.reads_of_ofField howner)
  | replaceTargets m =>
    obtain rfl := pure_eq_ok.mp h
    exact .replaceTargets rfl rfl (Target.map_toWire_ofWire _).symm
  | deleteAccount m =>
    obtain rfl := pure_eq_ok.mp h
    exact .deleteAccount rfl rfl
  | flushDomain m =>
    obtain rfl := pure_eq_ok.mp h
    exact .flushDomain rfl
  | renewAccount m =>
    obtain rfl := pure_eq_ok.mp h
    exact .renewAccount rfl rfl
  | addCertificate m =>
    simp only [ofWire, bind_eq_ok, pure_eq_ok, Check.present_eq_ok] at h
    obtain ⟨_, ⟨hne, rfl⟩, rfl⟩ := h
    exact .addCertificate rfl rfl rfl hne
  | replaceMessageFees m =>
    simp only [ofWire, bind_eq_ok, pure_eq_ok] at h
    obtain ⟨fees, hfees, rfl⟩ := h
    exact .replaceMessageFees rfl (MessageFee.reads_of_mapM hfees)
  | deleteCertificate m =>
    simp only [ofWire, bind_eq_ok, pure_eq_ok, Check.present_eq_ok] at h
    obtain ⟨_, ⟨hne, rfl⟩, rfl⟩ := h
    exact .deleteCertificate rfl rfl rfl hne
  | createContract m =>
    simp only [ofWire, bind_eq_ok, pure_eq_ok] at h
    obtain ⟨participants, hparticipants, rfl⟩ := h
    exact .createContract (Participant.reads_of_listOfWire hparticipants) rfl rfl
  | updateContract m =>
    simp only [ofWire, bind_eq_ok, pure_eq_ok] at h
    obtain ⟨id, hid, participants, hparticipants, rfl⟩ := h
    exact .updateContract (Id.encode_of_ofField hid)
      (Participant.reads_of_listOfWire hparticipants) rfl rfl
  | createEscrow m =>
    simp only [ofWire, bind_eq_ok, pure_eq_ok] at h
    obtain ⟨e, he, rfl⟩ := h
    exact .createEscrow (EscrowCreation.reads_of_ofWire he)
  | releaseEscrow m =>
    simp only [ofWire, bind_eq_ok, pure_eq_ok, mapM_eq_ok] at h
    obtain ⟨id, hid, amounts, hamounts, rfl⟩ := h
    exact .releaseEscrow (Id.encode_of_ofField hid) hamounts
  | returnEscrow m =>
    simp only [ofWire, bind_eq_ok, pure_eq_ok] at h
    obtain ⟨id, hid, rfl⟩ := h
    exact .returnEscrow (Id.encode_of_ofField hid)
  | updateEscrowParties m =>
    simp only [ofWire, bind_eq_ok, pure_eq_ok] at h
    obtain ⟨p, hp, rfl⟩ := h
    exact .updateEscrowParties (EscrowParties.reads_of_ofWire hp)
  | createProposal m =>
    simp only [ofWire, bind_eq_ok, pure_eq_ok] at h
    obtain ⟨p, hp, rfl⟩ := h
    exact .createProposal (Proposal.reads_of_ofWire hp)
  | vote m =>
    simp only [ofWire, bind_eq_ok, pure_eq_ok] at h
    obtain ⟨v, hv, rfl⟩ := h
    exact .vote (Vote.reads_of_ofWire hv)
  -- two messages are never read
  | deleteProposal m => cases h
  | tally m => cases h

/-! ## Transactions -/

structure Fee.Reads (network : Network) (m : Wire.FeeInfo) (fee : Fee) : Prop where
  payer : Address.Reads? network m.payer fee.payer
  tokens : Option.Rel (fun coin a => Amount.ofCoin coin = .ok a) m.fees fee.tokens

theorem Fee.reads_of_ofWire {m : Wire.FeeInfo} {fee : Fee} (h : ofWire network m = .ok fee) :
    Reads network m fee := by
  simp only [ofWire, bind_eq_ok, pure_eq_ok] at h
  obtain ⟨payer, hpayer, tokens, htokens, rfl⟩ := h
  exact ⟨Address.reads_of_ofField? hpayer, Check.optionally_eq_ok.mp htokens⟩

/-- A signature is read from the one message that it is written as. -/
theorem Signature.toWire_of_ofWire {m : Wire.Signature} {s : Signature} (h : ofWire m = .ok s) :
    s.toWire = .ok m := by
  obtain ⟨sequence, publicKey, signature⟩ := m
  simp only [ofWire, bind_eq_ok, pure_eq_ok, Check.given_eq_ok, Check.exactly_eq_ok,
    Option.bind_eq_some_iff] at h
  obtain ⟨key, ⟨_, rfl, hkey⟩, _, ⟨hlength, rfl⟩, data, ⟨_, rfl, hdata⟩, rfl⟩ := h
  refine toWire_eq_ok.mpr ⟨rfl, hlength, ?_⟩
  rw [← hkey, ← hdata]

/-- Which envelope a signed transaction is read from. -/
structure SignedTransaction.Reads (chainId : String) (m : Wire.Tx) (s : SignedTransaction) :
    Prop where
  chainId : s.transaction.chainId = chainId
  signatures : List.Forall₂ (fun w signature => Signature.ofWire w = .ok signature) m.signatures
    s.signatures
  fee : Option.Rel (Fee.Reads s.transaction.network) m.fees s.transaction.fee
  multisig : m.multisig = s.transaction.multisig.map Id.encode
  operation : ∃ body, m.body = some body ∧
    Operation.Reads s.transaction.network body s.transaction.operation

namespace SignedTransaction

theorem reads_of_ofWire {chainId : String} {m : Wire.Tx} {s : SignedTransaction}
    (h : ofWire chainId m = .ok s) : Reads chainId m s := by
  obtain ⟨signatures, hsignatures, hrest⟩ := bind_eq_ok.mp h
  cases signatures with
  | nil => cases hrest
  | cons primary others =>
    simp only [bind_eq_ok, pure_eq_ok] at hrest
    obtain ⟨fee, hfee, multisig, hmultisig, operation, hoperation, rfl⟩ := hrest
    refine ⟨rfl, mapM_eq_ok.mp hsignatures, ?_, ?_, ?_⟩
    -- the fee, then the contracts, then the operation
    · cases hm : m.fees with
      | none =>
        rw [hm] at hfee
        obtain rfl := Except.ok.inj hfee
        exact .none
      | some w =>
        rw [hm] at hfee
        obtain ⟨fee, hw, rfl⟩ := map_eq_ok.mp hfee
        exact .some (Fee.reads_of_ofWire hw)
    · have hids := (mapM_eq_ok.mp hmultisig).imp fun _ _ => Id.encode_of_ofField
      show m.multisig = multisig.map Id.encode
      rw [← List.forall₂_eq_eq_eq, List.forall₂_map_right_iff]
      exact hids.imp fun _ _ => Eq.symm
    · rw [Transaction.operationOfWire] at hoperation
      split at hoperation
      · cases hoperation
      · next body hbody => exact ⟨body, hbody, Operation.reads_of_ofWire hoperation⟩

/-- Whatever is read as a signed transaction stands for an envelope. -/
theorem reads_of_decode {chainId : String} {bs : Bytes} {s : SignedTransaction}
    (h : decode chainId bs = .ok s) :
    ∃ m, Wire.Message.decode? bs = some m ∧ Reads chainId m s := by
  rw [decode] at h
  split at h
  · cases h
  · next m hm => exact ⟨m, hm, reads_of_ofWire h⟩

end SignedTransaction

end NameService
