import NameService.Proofs.Agreement
import NameService.Proofs.Fields
import NameService.Proofs.Wire.Schema

/-
  Actions of proposals are read back in their normal form.

  What is proved:
    1. `Action.ofWire_toWire` — the wire message of an action is read as the
       normal form of the action; `Action.decode_encode` states the same of the
       bytes that a proposal holds.
    2. `Action.toWire_normal_iff` — the normal form of an action is written as
       the action is, if and only if its electors keep their order.
-/

namespace NameService

open Result

variable {network : Network}

/-! ## Messages that others share -/

theorem Transfer.codec :
    Codec (Transfer.toWire network) (Transfer.ofWire network) (Transfer.normal network) where
  read_write {t m} h := by
    simp only [Transfer.toWire, bind_eq_ok, pure_eq_ok] at h
    obtain ⟨source, hsource, destination, hdestination, amount, hamount, memo, hmemo, rfl⟩ := h
    simp only [Transfer.ofWire, (Address.codec _).read_write hsource,
      (Address.codec _).read_write hdestination, Amount.ofField_some,
      Amount.codec.read_write hamount, Memo.decode_of_encode hmemo, ok_bind]
    rfl
  write_normal {t m} h := by
    simp only [Transfer.toWire, bind_eq_ok, pure_eq_ok] at h ⊢
    obtain ⟨source, hsource, destination, hdestination, amount, hamount, memo, hmemo, rfl⟩ := h
    exact ⟨source, Address.decodeFor_canonical hsource,
      destination, Address.decodeFor_canonical hdestination,
      amount, Amount.codec.write_normal hamount, memo, Memo.codec.write_normal hmemo, rfl⟩

theorem AccountConfiguration.codec :
    Codec (AccountConfiguration.toUpdate network) (AccountConfiguration.ofUpdate network)
      (AccountConfiguration.normal network) where
  read_write {c m} h := by
    simp only [AccountConfiguration.toUpdate, AccountConfiguration.toWire, bind_eq_ok,
      pure_eq_ok] at h
    obtain ⟨patch, ⟨owner, howner, rfl⟩, rfl⟩ := h
    simp only [AccountConfiguration.ofUpdate, Check.given, AccountConfiguration.ofWire,
      (Address.codec _).read_write howner, ok_bind]
    rfl
  write_normal {c m} h := by
    simp only [AccountConfiguration.toUpdate, AccountConfiguration.toWire, bind_eq_ok,
      pure_eq_ok] at h ⊢
    obtain ⟨patch, ⟨owner, howner, rfl⟩, rfl⟩ := h
    exact ⟨_, ⟨owner, Address.decodeFor_canonical howner, rfl⟩, rfl⟩

/-! ## Measures -/

/-- The wire message of a measure is read as its normal form. -/
theorem Measure.ofWire_toWire {measure : Measure} {w : Wire.ProposalOption}
    (h : measure.toWire network = .ok w) :
    Action.ofWire network w = .ok (.enact (measure.normal network)) := by
  cases measure with
  | textResolution resolution =>
    obtain rfl := pure_eq_ok.mp h
    rfl
  | releaseEscrow escrowId amount =>
    simp only [Measure.toWire, bind_eq_ok, pure_eq_ok] at h
    obtain ⟨coin, hcoin, rfl⟩ := h
    -- one coin is written, and the first one is read
    simp only [Action.ofWire, List.head?_cons, Check.given, Id.ofField_encode,
      Amount.codec.read_write hcoin, ok_bind]
    rfl
  | send transfer =>
    simp only [Measure.toWire, bind_eq_ok, pure_eq_ok] at h
    obtain ⟨m, hm, rfl⟩ := h
    simp only [Action.ofWire, Action.transferOfWire_eq, Transfer.codec.read_write hm, ok_bind]
    rfl
  | setValidators updates =>
    simp only [Measure.toWire, bind_eq_ok, pure_eq_ok] at h
    obtain ⟨ms, hms, rfl⟩ := h
    simp only [Action.ofWire, Validator.updatesCodec.read_write hms, ok_bind]
    rfl
  | updateElectionRule rule =>
    simp only [Measure.toWire, bind_eq_ok, pure_eq_ok] at h
    obtain ⟨threshold, hthreshold, quorum, hquorum, rfl⟩ := h
    simp only [Action.ofWire, Id.ofField_encode, Fraction.codec.optional.read_write hthreshold,
      Fraction.codec.optional.read_write hquorum, ok_bind, Option.map_id]
    rfl
  | updateElectorate electorateId electors =>
    simp only [Measure.toWire, bind_eq_ok, pure_eq_ok] at h
    obtain ⟨ms, hms, rfl⟩ := h
    simp only [Action.ofWire, Id.ofField_encode, Elector.updatesOfWire_toWire hms, ok_bind]
    rfl
  | setMessageFee path fee =>
    simp only [Measure.toWire, bind_eq_ok, pure_eq_ok] at h
    obtain ⟨coin, hcoin, rfl⟩ := h
    simp only [Action.ofWire, Amount.ofField_some, Amount.codec.read_write hcoin, ok_bind]
    rfl
  | executeMigration id =>
    by_cases hid : id = ""
    · have hfail : Measure.toWire network (.executeMigration id) =
          .error (.missing "migrationId") := by
        rw [hid]
        rfl
      rw [hfail] at h
      cases h
    · rw [Measure.toWire, if_neg hid] at h
      obtain rfl := pure_eq_ok.mp h
      rw [Action.ofWire, if_neg hid]
      rfl
  | upgradeSchema package toVersion =>
    obtain rfl := pure_eq_ok.mp h
    rfl
  | configureCash c =>
    simp only [Measure.toWire, bind_eq_ok, pure_eq_ok] at h
    obtain ⟨owner, howner, collector, hcollector, fee, hfee, rfl⟩ := h
    simp only [Action.ofWire, Check.given, (Address.codec _).read_write howner,
      (Address.codec _).read_write hcollector, Amount.codec.optional.read_write hfee, ok_bind]
    rfl
  | configureTxFee c =>
    simp only [Measure.toWire, bind_eq_ok, pure_eq_ok] at h
    obtain ⟨owner, howner, fee, hfee, rfl⟩ := h
    simp only [Action.ofWire, Check.given, (Address.codec _).read_write howner,
      Amount.codec.optional.read_write hfee, ok_bind]
    rfl
  | configureUsernames c =>
    simp only [Measure.toWire, bind_eq_ok, pure_eq_ok] at h
    obtain ⟨owner, howner, rfl⟩ := h
    simp only [Action.ofWire, Check.given, (Address.codec _).read_write howner, ok_bind]
    rfl
  | configureAccounts c =>
    simp only [Measure.toWire_configureAccounts, bind_eq_ok, pure_eq_ok] at h
    obtain ⟨m, hm, rfl⟩ := h
    simp only [Action.ofWire_updateAccount, AccountConfiguration.codec.read_write hm, ok_bind]
    rfl
  | configureMessageFees c =>
    simp only [Measure.toWire, bind_eq_ok, pure_eq_ok] at h
    obtain ⟨owner, howner, feeAdmin, hfeeAdmin, rfl⟩ := h
    simp only [Action.ofWire, Check.given, (Address.codec _).read_write howner,
      (Address.codec _).read_write hfeeAdmin, ok_bind]
    rfl

/-- The normal form of a measure is written as the measure is, if and only if its
electors keep their order. -/
theorem Measure.toWire_normal_iff {measure : Measure} {w : Wire.ProposalOption}
    (h : measure.toWire network = .ok w) :
    (measure.normal network).toWire network = .ok w ↔ measure.ElectorsInOrder network := by
  cases measure with
  | updateElectorate electorateId electors =>
    simp only [Measure.toWire, bind_eq_ok, pure_eq_ok] at h
    obtain ⟨ms, hms, rfl⟩ := h
    rw [Measure.ElectorsInOrder, ← Elector.toWire_normal_iff hms]
    -- apart from the electors the two messages are the same
    constructor
    · intro hnormal
      simp only [Measure.normal, Measure.toWire, bind_eq_ok, pure_eq_ok] at hnormal
      obtain ⟨ms', hms', heq⟩ := hnormal
      injection heq with heq
      injection heq with _ _ heq
      rw [← heq]
      exact hms'
    · intro hnormal
      simp only [Measure.normal, Measure.toWire, hnormal, ok_bind]
      rfl
  | releaseEscrow escrowId amount =>
    simp only [Measure.toWire, bind_eq_ok, pure_eq_ok] at h
    obtain ⟨coin, hcoin, rfl⟩ := h
    refine iff_of_true ?_ trivial
    simp only [Measure.normal, Measure.toWire, Amount.codec.write_normal hcoin, ok_bind]
    rfl
  | send transfer =>
    simp only [Measure.toWire, bind_eq_ok, pure_eq_ok] at h
    obtain ⟨m, hm, rfl⟩ := h
    refine iff_of_true ?_ trivial
    simp only [Measure.normal, Measure.toWire, Measure.transferToWire_eq,
      Transfer.codec.write_normal hm, ok_bind]
    rfl
  | setMessageFee path fee =>
    simp only [Measure.toWire, bind_eq_ok, pure_eq_ok] at h
    obtain ⟨coin, hcoin, rfl⟩ := h
    refine iff_of_true ?_ trivial
    simp only [Measure.normal, Measure.toWire, Amount.codec.write_normal hcoin, ok_bind]
    rfl
  | configureCash c =>
    simp only [Measure.toWire, bind_eq_ok, pure_eq_ok] at h
    obtain ⟨owner, howner, collector, hcollector, fee, hfee, rfl⟩ := h
    refine iff_of_true ?_ trivial
    simp only [Measure.normal, Measure.toWire, Address.decodeFor_canonical howner,
      Address.decodeFor_canonical hcollector, Amount.codec.optional.write_normal hfee, ok_bind]
    rfl
  | configureTxFee c =>
    simp only [Measure.toWire, bind_eq_ok, pure_eq_ok] at h
    obtain ⟨owner, howner, fee, hfee, rfl⟩ := h
    refine iff_of_true ?_ trivial
    simp only [Measure.normal, Measure.toWire, Address.decodeFor_canonical howner,
      Amount.codec.optional.write_normal hfee, ok_bind]
    rfl
  | configureUsernames c =>
    simp only [Measure.toWire, bind_eq_ok, pure_eq_ok] at h
    obtain ⟨owner, howner, rfl⟩ := h
    refine iff_of_true ?_ trivial
    simp only [Measure.normal, Measure.toWire, Address.decodeFor_canonical howner, ok_bind]
    rfl
  | configureAccounts c =>
    simp only [Measure.toWire_configureAccounts, bind_eq_ok, pure_eq_ok] at h
    obtain ⟨m, hm, rfl⟩ := h
    refine iff_of_true ?_ trivial
    simp only [Measure.normal, Measure.toWire_configureAccounts,
      AccountConfiguration.codec.write_normal hm, ok_bind]
    rfl
  | configureMessageFees c =>
    simp only [Measure.toWire, bind_eq_ok, pure_eq_ok] at h
    obtain ⟨owner, howner, feeAdmin, hfeeAdmin, rfl⟩ := h
    refine iff_of_true ?_ trivial
    simp only [Measure.normal, Measure.toWire, Address.decodeFor_canonical howner,
      Address.decodeFor_canonical hfeeAdmin, ok_bind]
    rfl
  -- the rest holds nothing that has two spellings
  | textResolution _ => exact iff_of_true h trivial
  | setValidators _ => exact iff_of_true h trivial
  | updateElectionRule _ => exact iff_of_true h trivial
  | executeMigration _ => exact iff_of_true h trivial
  | upgradeSchema _ _ => exact iff_of_true h trivial

/-- The normal form of a measure is its own. -/
theorem Measure.normal_normal {measure : Measure} {w : Wire.ProposalOption}
    (h : measure.toWire network = .ok w) :
    (measure.normal network).normal network = measure.normal network := by
  by_cases horder : measure.ElectorsInOrder network
  · -- what is written alike is read alike
    have hread := Measure.ofWire_toWire ((Measure.toWire_normal_iff h).mpr horder)
    rw [Measure.ofWire_toWire h] at hread
    exact (Action.enact.inj (Except.ok.inj hread)).symm
  · cases measure with
    | updateElectorate electorateId electors =>
      simp only [Measure.toWire, bind_eq_ok, pure_eq_ok] at h
      obtain ⟨ms, hms, rfl⟩ := h
      simp only [Measure.normal, Elector.normal_normal hms]
    | _ => exact absurd trivial horder

/-! ## Actions -/

namespace Action

/-- A transfer is the only action that can be written into a batch. -/
theorem memberToWire_eq_ok {action : Action} {place : Wire.BatchPlace} :
    memberToWire network action = .ok place ↔
      ∃ transfer m, action = .enact (.send transfer) ∧ transfer.toWire network = .ok m ∧
        place = ⟨some (.send m)⟩ := by
  unfold memberToWire
  split
  · next transfer =>
    simp only [bind_eq_ok, pure_eq_ok]
    constructor
    · rintro ⟨m, hm, rfl⟩
      exact ⟨transfer, m, rfl, hm, rfl⟩
    · rintro ⟨_, m, heq, hm, rfl⟩
      obtain rfl := Measure.send.inj (enact.inj heq)
      exact ⟨m, hm, rfl⟩
  · next hother =>
    constructor
    · intro h
      cases h
    · rintro ⟨transfer, m, rfl, -, -⟩
      exact absurd rfl (hother transfer)

theorem memberCodec :
    Codec (memberToWire network) (memberOfWire network) (normal network) where
  read_write {action place} h := by
    obtain ⟨transfer, m, rfl, hm, rfl⟩ := memberToWire_eq_ok.mp h
    simp only [memberOfWire, transferOfWire_eq, Transfer.codec.read_write hm, ok_bind]
    rfl
  write_normal {action place} h := by
    obtain ⟨transfer, m, rfl, hm, rfl⟩ := memberToWire_eq_ok.mp h
    exact memberToWire_eq_ok.mpr ⟨_, m, rfl, Transfer.codec.write_normal hm, rfl⟩

/-- The wire message of an action is read as its normal form. -/
theorem ofWire_toWire {action : Action} {w : Wire.ProposalOption}
    (h : action.toWire network = .ok w) : ofWire network w = .ok (action.normal network) := by
  cases action with
  | enact measure => exact Measure.ofWire_toWire h
  | batch members =>
    simp only [toWire, bind_eq_ok, pure_eq_ok] at h
    obtain ⟨places, hplaces, rfl⟩ := h
    have hread := memberCodec.list.read_write hplaces
    simp only [ofWire, hread, ok_bind, normal, normalList_eq_map]
    rfl

/-- The normal form of an action is written as the action is, if and only if its
electors keep their order. -/
theorem toWire_normal_iff {action : Action} {w : Wire.ProposalOption}
    (h : action.toWire network = .ok w) :
    (action.normal network).toWire network = .ok w ↔ action.ElectorsInOrder network := by
  cases action with
  | enact measure => exact Measure.toWire_normal_iff h
  | batch members =>
    simp only [toWire, bind_eq_ok, pure_eq_ok] at h
    obtain ⟨places, hplaces, rfl⟩ := h
    have hwrite := memberCodec.list.write_normal hplaces
    refine iff_of_true ?_ trivial
    simp only [normal, normalList_eq_map, toWire, hwrite, ok_bind]
    rfl

/-- The normal form of an action is its own. -/
theorem normal_normal {action : Action} {w : Wire.ProposalOption}
    (h : action.toWire network = .ok w) :
    (action.normal network).normal network = action.normal network := by
  cases action with
  | enact measure =>
    simp only [normal, Measure.normal_normal h]
  | batch members =>
    have hread := ofWire_toWire ((toWire_normal_iff h).mpr trivial)
    rw [ofWire_toWire h] at hread
    exact (Except.ok.inj hread).symm

/-! ## Bytes of actions -/

theorem encode_eq_ok {action : Action} {bs : Bytes} :
    action.encode network = .ok bs ↔
      ∃ w, action.toWire network = .ok w ∧
        Wire.Message.encode (⟨some w⟩ : Wire.ProposalOptions) = bs := by
  simp only [encode, bind_eq_ok, pure_eq_ok]

/-- The bytes of an action are read as its normal form. -/
theorem decode_encode {action : Action} {bs : Bytes} (h : action.encode network = .ok bs)
    (hlength : bs.length < 2 ^ 64) : decode network bs = .ok (action.normal network) := by
  obtain ⟨w, hw, rfl⟩ := encode_eq_ok.mp h
  rw [decode, Wire.ProposalOptions.decode?_encode _ hlength]
  exact ofWire_toWire hw

/-- The bytes of an action are not those of an absent one, which has none. -/
theorem encode_ne_nil {action : Action} {bs : Bytes} (h : action.encode network = .ok bs) :
    bs ≠ [] := by
  obtain ⟨w, -, rfl⟩ := encode_eq_ok.mp h
  intro hnil
  have hread := Wire.ProposalOptions.decode?_encode ⟨some w⟩ (hnil ▸ by decide)
  have habsent : Wire.Message.decode? [] = some (⟨none⟩ : Wire.ProposalOptions) := rfl
  rw [hnil, habsent] at hread
  cases hread

/-- The same as `toWire_normal_iff`, for the bytes. -/
theorem encode_normal_iff {action : Action} {bs : Bytes} (h : action.encode network = .ok bs)
    (hlength : bs.length < 2 ^ 64) :
    (action.normal network).encode network = .ok bs ↔ action.ElectorsInOrder network := by
  obtain ⟨w, hw, rfl⟩ := encode_eq_ok.mp h
  rw [← toWire_normal_iff hw, encode_eq_ok]
  constructor
  · rintro ⟨w', hw', heq⟩
    have hoptions := Wire.ProposalOptions.encode_inj hlength heq.symm
    rw [Wire.ProposalOptions.mk.injEq, Option.some.injEq] at hoptions
    rw [hoptions]
    exact hw'
  · exact fun hnormal => ⟨w, hnormal, rfl⟩

end Action

end NameService
