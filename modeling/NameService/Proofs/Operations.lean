import NameService.Operation.Wire
import NameService.Proofs.Actions

/-
  Operations are read back in their normal form.

  What is proved:
    1. `Operation.ofWire_toWire` — the wire message of an operation is read as
       the normal form of the operation, whatever the strictness was.
    2. `Operation.toWire_normal_iff` — the normal form of an operation is
       written as the operation is, if and only if its electors keep their
       order.

  A proposal holds the bytes of its action, so both need that the number of
  these has 64 bits (`Wire.Body.RawFits`).
-/

namespace NameService

open Result

variable {network : Network}

/-! ## Swaps and escrows -/

theorem SwapOffer.codec :
    Codec (SwapOffer.toWire network) (SwapOffer.ofWire network) (SwapOffer.normal network) where
  read_write {o m} h := by
    simp only [SwapOffer.toWire, bind_eq_ok, pure_eq_ok] at h
    obtain ⟨hash, hhash, source, hsource, destination, hdestination, amount, hamount, memo, hmemo,
      rfl⟩ := h
    obtain ⟨hlength, rfl⟩ := Check.exactly_eq_ok.mp hhash
    simp only [SwapOffer.ofWire, (Address.codec _).read_write hsource,
      (Address.codec _).read_write hdestination, Amount.codec.list.read_write hamount,
      Check.fixed_of_length hlength (by decide), Memo.decode_of_encode hmemo, ok_bind]
    rfl
  write_normal {o m} h := by
    simp only [SwapOffer.toWire, bind_eq_ok, pure_eq_ok] at h ⊢
    obtain ⟨hash, hhash, source, hsource, destination, hdestination, amount, hamount, memo, hmemo,
      rfl⟩ := h
    exact ⟨hash, hhash, source, Address.decodeFor_canonical hsource,
      destination, Address.decodeFor_canonical hdestination,
      amount, Amount.codec.list.write_normal hamount, memo, Memo.codec.write_normal hmemo, rfl⟩

theorem EscrowCreation.codec :
    Codec (EscrowCreation.toWire network) (EscrowCreation.ofWire network)
      (EscrowCreation.normal network) where
  read_write {e m} h := by
    simp only [EscrowCreation.toWire, bind_eq_ok, pure_eq_ok] at h
    obtain ⟨source, hsource, arbiter, harbiter, destination, hdestination, amount, hamount, memo,
      hmemo, rfl⟩ := h
    simp only [EscrowCreation.ofWire, (Address.codec _).read_write hsource,
      (Address.codec _).read_write harbiter, (Address.codec _).read_write hdestination,
      Amount.codec.list.read_write hamount, Memo.decode_of_encode hmemo, ok_bind]
    rfl
  write_normal {e m} h := by
    simp only [EscrowCreation.toWire, bind_eq_ok, pure_eq_ok] at h ⊢
    obtain ⟨source, hsource, arbiter, harbiter, destination, hdestination, amount, hamount, memo,
      hmemo, rfl⟩ := h
    exact ⟨source, Address.decodeFor_canonical hsource,
      arbiter, Address.decodeFor_canonical harbiter,
      destination, Address.decodeFor_canonical hdestination,
      amount, Amount.codec.list.write_normal hamount, memo, Memo.codec.write_normal hmemo, rfl⟩

namespace EscrowParties

theorem count_normal (p : EscrowParties) : (p.normal network).count = p.count := by
  simp only [count, normal, List.filter_cons, Option.isSome_map]
  split <;> split <;> split <;> rfl

theorem toWire_eq_ok {p : EscrowParties} {m : Wire.UpdateEscrowParties} :
    p.toWire network = .ok m ↔ p.count = 1 ∧
      ∃ source, Address.decodeFor? network p.sender = .ok source ∧
      ∃ arbiter, Address.decodeFor? network p.arbiter = .ok arbiter ∧
      ∃ destination, Address.decodeFor? network p.recipient = .ok destination ∧
        ⟨Wire.header, Id.encode p.escrowId, source, arbiter, destination⟩ = m := by
  by_cases hcount : p.count = 1
  · rw [toWire, if_neg (by simp [hcount])]
    simp only [bind_eq_ok, pure_eq_ok, hcount, true_and]
  · have hfail : p.toWire network = .error (.violation (.partyCount p.count)) := by
      rw [toWire, if_pos hcount]
      rfl
    simp [hfail, hcount]

theorem codec : Codec (toWire network) (ofWire network) (normal network) where
  read_write {p m} h := by
    obtain ⟨-, source, hsource, arbiter, harbiter, destination, hdestination, rfl⟩ :=
      toWire_eq_ok.mp h
    simp only [ofWire, Id.ofField_encode, (Address.optionalCodec _).read_write hsource,
      (Address.optionalCodec _).read_write harbiter,
      (Address.optionalCodec _).read_write hdestination, ok_bind]
    rfl
  write_normal {p m} h := by
    obtain ⟨hcount, source, hsource, arbiter, harbiter, destination, hdestination, rfl⟩ :=
      toWire_eq_ok.mp h
    exact toWire_eq_ok.mpr ⟨(count_normal p).trans hcount,
      source, Address.decodeFor?_canonical hsource,
      arbiter, Address.decodeFor?_canonical harbiter,
      destination, Address.decodeFor?_canonical hdestination, rfl⟩

end EscrowParties

/-! ## Names -/

theorem checkUsername_eq_ok {username checked : String} (h : checkUsername username = .ok checked) :
    username = checked := by
  rw [checkUsername] at h
  split at h
  · exact Except.ok.inj h
  · cases h

theorem DomainRegistration.codec :
    Codec (DomainRegistration.toWire network) (DomainRegistration.ofWire network)
      (DomainRegistration.normal network) where
  read_write {r m} h := by
    simp only [DomainRegistration.toWire, bind_eq_ok, pure_eq_ok] at h
    obtain ⟨admin, hadmin, broker, hbroker, fees, hfees, rfl⟩ := h
    simp only [DomainRegistration.ofWire, (Address.codec _).read_write hadmin,
      (Address.optionalCodec _).read_write hbroker, MessageFee.codec.list.read_write hfees, ok_bind]
    rfl
  write_normal {r m} h := by
    simp only [DomainRegistration.toWire, bind_eq_ok, pure_eq_ok] at h ⊢
    obtain ⟨admin, hadmin, broker, hbroker, fees, hfees, rfl⟩ := h
    exact ⟨admin, Address.decodeFor_canonical hadmin,
      broker, Address.decodeFor?_canonical hbroker,
      fees, MessageFee.codec.list.write_normal hfees, rfl⟩

theorem AccountRegistration.codec :
    Codec (AccountRegistration.toWire network) (AccountRegistration.ofWire network)
      (AccountRegistration.normal network) where
  read_write {r m} h := by
    simp only [AccountRegistration.toWire, bind_eq_ok, pure_eq_ok] at h
    obtain ⟨owner, howner, broker, hbroker, rfl⟩ := h
    simp only [AccountRegistration.ofWire, (Address.codec _).read_write howner,
      (Address.optionalCodec _).read_write hbroker, Target.map_ofWire_toWire, ok_bind]
    rfl
  write_normal {r m} h := by
    simp only [AccountRegistration.toWire, bind_eq_ok, pure_eq_ok] at h ⊢
    obtain ⟨owner, howner, broker, hbroker, rfl⟩ := h
    exact ⟨owner, Address.decodeFor_canonical howner,
      broker, Address.decodeFor?_canonical hbroker, rfl⟩

/-! ## Governance -/

theorem ContractTerms.listToWire_normal {terms : ContractTerms} {ms : List Wire.Participant}
    (h : Participant.listToWire network terms.participants = .ok ms) :
    Participant.listToWire network (terms.normal network).participants = .ok ms :=
  Participant.listCodec.write_normal h

namespace Proposal

theorem toWire_eq_ok {p : Proposal} {m : Wire.CreateProposal} :
    p.toWire network = .ok m ↔
      ∃ rawOption, p.action.encode network = .ok rawOption ∧
      ∃ author, Address.decodeFor network p.author = .ok author ∧
        ⟨Wire.header, p.title, rawOption, p.description, Id.encode p.electionRuleId, p.startTime,
          author⟩ = m := by
  simp only [toWire, bind_eq_ok, pure_eq_ok]

theorem ofWire_toWire {p : Proposal} {m : Wire.CreateProposal} (h : p.toWire network = .ok m)
    (hraw : m.rawOption.length < 2 ^ 64) : ofWire network m = .ok (p.normal network) := by
  obtain ⟨rawOption, hrawOption, author, hauthor, rfl⟩ := toWire_eq_ok.mp h
  have hdecode := Action.decode_encode hrawOption hraw
  have hne := Action.encode_ne_nil hrawOption
  simp only [ofWire, Check.present_eq_ok.mpr ⟨hne, rfl⟩, hdecode, Id.ofField_encode,
    (Address.codec _).read_write hauthor, ok_bind]
  rfl

theorem toWire_normal_iff {p : Proposal} {m : Wire.CreateProposal} (h : p.toWire network = .ok m)
    (hraw : m.rawOption.length < 2 ^ 64) :
    (p.normal network).toWire network = .ok m ↔ p.action.ElectorsInOrder network := by
  obtain ⟨rawOption, hrawOption, author, hauthor, rfl⟩ := toWire_eq_ok.mp h
  rw [← Action.encode_normal_iff hrawOption hraw, toWire_eq_ok]
  constructor
  · rintro ⟨rawOption', hrawOption', author', -, heq⟩
    injection heq with _ _ heq
    rw [← heq]
    exact hrawOption'
  · intro hnormal
    exact ⟨rawOption, hnormal, author, Address.decodeFor_canonical hauthor, rfl⟩

/-- The normal form of a proposal is its own. -/
theorem normal_normal {p : Proposal} {m : Wire.CreateProposal} (h : p.toWire network = .ok m) :
    (p.normal network).normal network = p.normal network := by
  obtain ⟨rawOption, hrawOption, author, hauthor, rfl⟩ := toWire_eq_ok.mp h
  obtain ⟨w, hw, -⟩ := Action.encode_eq_ok.mp hrawOption
  simp only [normal, Action.normal_normal hw, (Address.codec "author").normal_normal hauthor]

end Proposal

theorem Selection.ofNumber_number (s : Selection) : Selection.ofNumber s.number = .ok s := by
  cases s <;> rfl

namespace Vote

variable {strict : Bool}

theorem toWire_eq_ok {v : Vote} {m : Wire.Vote} :
    v.toWire network strict = .ok m ↔ ¬ (strict && v.voter.isNone) = true ∧
      ∃ voter, Address.decodeFor? network v.voter = .ok voter ∧
        ⟨Wire.header, Id.encode v.proposalId, voter, v.selection.number⟩ = m := by
  by_cases hvoter : (strict && v.voter.isNone) = true
  · have hfail : v.toWire network strict = .error (.violation .missingVoter) := by
      rw [toWire, if_pos hvoter]
      rfl
    simp only [hfail, hvoter, not_true_eq_false, false_and, reduceCtorEq]
  · rw [toWire, if_neg hvoter]
    simp only [bind_eq_ok, pure_eq_ok, hvoter, Bool.false_eq_true, not_false_eq_true, true_and]

theorem codec : Codec (toWire network strict) (ofWire network) (normal network) where
  read_write {v m} h := by
    obtain ⟨-, voter, hvoter, rfl⟩ := toWire_eq_ok.mp h
    simp only [ofWire, (Address.optionalCodec _).read_write hvoter, Id.ofField_encode,
      Selection.ofNumber_number, ok_bind]
    rfl
  write_normal {v m} h := by
    obtain ⟨hnamed, voter, hvoter, rfl⟩ := toWire_eq_ok.mp h
    refine toWire_eq_ok.mpr ⟨?_, voter, Address.decodeFor?_canonical hvoter, rfl⟩
    rw [normal, Option.isNone_map]
    exact hnamed

end Vote

/-! ## Operations -/

/-- The bytes of an action, if the message holds any, can be written as a block. -/
def Wire.Body.RawFits : Wire.Body → Prop
  | .createProposal m => m.rawOption.length < 2 ^ 64
  | _ => True

namespace Operation

variable {strict : Bool}

/-- The wire message of an operation is read as its normal form. -/
theorem ofWire_toWire {operation : Operation} {body : Wire.Body}
    (h : operation.toWire network strict = .ok body) (hraw : body.RawFits) :
    ofWire network body = .ok (operation.normal network) := by
  cases operation with
  | send transfer =>
    simp only [toWire, bind_eq_ok, pure_eq_ok] at h
    obtain ⟨m, hm, rfl⟩ := h
    simp only [ofWire, Transfer.codec.read_write hm, ok_bind]
    rfl
  | swapOffer offer =>
    simp only [toWire, bind_eq_ok, pure_eq_ok] at h
    obtain ⟨m, hm, rfl⟩ := h
    simp only [ofWire, SwapOffer.codec.read_write hm, ok_bind]
    rfl
  | swapClaim swapId preimage =>
    simp only [toWire, bind_eq_ok, pure_eq_ok] at h
    obtain ⟨_, hswapId, _, hpreimage, rfl⟩ := h
    obtain ⟨hidLength, rfl⟩ := Check.exactly_eq_ok.mp hswapId
    obtain ⟨hlength, rfl⟩ := Check.exactly_eq_ok.mp hpreimage
    simp only [ofWire, Check.fixed_of_length hidLength (by decide),
      Check.fixed_of_length hlength (by decide), ok_bind]
    rfl
  | swapAbort swapId =>
    simp only [toWire, bind_eq_ok, pure_eq_ok] at h
    obtain ⟨_, hswapId, rfl⟩ := h
    obtain ⟨hlength, rfl⟩ := Check.exactly_eq_ok.mp hswapId
    simp only [ofWire, Check.fixed_of_length hlength (by decide), ok_bind]
    rfl
  | registerUsername username targets =>
    simp only [toWire, bind_eq_ok, pure_eq_ok] at h
    obtain ⟨_, husername, rfl⟩ := h
    obtain rfl := checkUsername_eq_ok husername
    simp only [ofWire, Target.map_ofWire_toWire]
    rfl
  | updateUsernameTargets username targets =>
    obtain rfl := pure_eq_ok.mp h
    simp only [ofWire, Target.map_ofWire_toWire]
    rfl
  | transferUsername username newOwner =>
    simp only [toWire, bind_eq_ok, pure_eq_ok] at h
    obtain ⟨hash, hhash, rfl⟩ := h
    simp only [ofWire, (Address.codec _).read_write hhash, ok_bind]
    rfl
  | updateAccountConfiguration configuration =>
    simp only [toWire, bind_eq_ok, pure_eq_ok] at h
    obtain ⟨m, hm, rfl⟩ := h
    simp only [ofWire, AccountConfiguration.codec.read_write hm, ok_bind]
    rfl
  | registerDomain registration =>
    simp only [toWire, bind_eq_ok, pure_eq_ok] at h
    obtain ⟨m, hm, rfl⟩ := h
    simp only [ofWire, DomainRegistration.codec.read_write hm, ok_bind]
    rfl
  | transferDomain domain newAdmin =>
    simp only [toWire, bind_eq_ok, pure_eq_ok] at h
    obtain ⟨hash, hhash, rfl⟩ := h
    simp only [ofWire, (Address.codec _).read_write hhash, ok_bind]
    rfl
  | renewDomain domain =>
    obtain rfl := pure_eq_ok.mp h
    rfl
  | deleteDomain domain =>
    obtain rfl := pure_eq_ok.mp h
    rfl
  | registerAccount registration =>
    simp only [toWire, bind_eq_ok, pure_eq_ok] at h
    obtain ⟨m, hm, rfl⟩ := h
    simp only [ofWire, AccountRegistration.codec.read_write hm, ok_bind]
    rfl
  | transferAccount domain name newOwner =>
    simp only [toWire, bind_eq_ok, pure_eq_ok] at h
    obtain ⟨hash, hhash, rfl⟩ := h
    simp only [ofWire, (Address.codec _).read_write hhash, ok_bind]
    rfl
  | replaceAccountTargets domain name newTargets =>
    obtain rfl := pure_eq_ok.mp h
    simp only [ofWire, Target.map_ofWire_toWire]
    rfl
  | deleteAccount domain name =>
    obtain rfl := pure_eq_ok.mp h
    rfl
  | deleteAllAccounts domain =>
    obtain rfl := pure_eq_ok.mp h
    rfl
  | renewAccount domain name =>
    obtain rfl := pure_eq_ok.mp h
    rfl
  | addAccountCertificate domain name certificate =>
    simp only [toWire, bind_eq_ok, pure_eq_ok] at h
    obtain ⟨_, hcertificate, rfl⟩ := h
    obtain ⟨hne, rfl⟩ := Check.present_eq_ok.mp hcertificate
    simp only [ofWire, Check.present_eq_ok.mpr ⟨hne, rfl⟩, ok_bind]
    rfl
  | replaceAccountMessageFees domain newMessageFees =>
    simp only [toWire, bind_eq_ok, pure_eq_ok] at h
    obtain ⟨fees, hfees, rfl⟩ := h
    simp only [ofWire, MessageFee.codec.list.read_write hfees, ok_bind]
    rfl
  | deleteAccountCertificate domain name certificateHash =>
    simp only [toWire, bind_eq_ok, pure_eq_ok] at h
    obtain ⟨_, hcertificate, rfl⟩ := h
    obtain ⟨hne, rfl⟩ := Check.present_eq_ok.mp hcertificate
    simp only [ofWire, Check.present_eq_ok.mpr ⟨hne, rfl⟩, ok_bind]
    rfl
  | createContract terms =>
    simp only [toWire, bind_eq_ok, pure_eq_ok] at h
    obtain ⟨participants, hparticipants, rfl⟩ := h
    simp only [ofWire, Participant.listCodec.read_write hparticipants, ok_bind]
    rfl
  | updateContract contractId terms =>
    simp only [toWire, bind_eq_ok, pure_eq_ok] at h
    obtain ⟨participants, hparticipants, rfl⟩ := h
    simp only [ofWire, Id.ofField_encode, Participant.listCodec.read_write hparticipants, ok_bind]
    rfl
  | createEscrow escrow =>
    simp only [toWire, bind_eq_ok, pure_eq_ok] at h
    obtain ⟨m, hm, rfl⟩ := h
    simp only [ofWire, EscrowCreation.codec.read_write hm, ok_bind]
    rfl
  | releaseEscrow escrowId amounts =>
    simp only [toWire, bind_eq_ok, pure_eq_ok] at h
    obtain ⟨coins, hcoins, rfl⟩ := h
    simp only [ofWire, Id.ofField_encode, Amount.codec.list.read_write hcoins, ok_bind]
    rfl
  | returnEscrow escrowId =>
    obtain rfl := pure_eq_ok.mp h
    simp only [ofWire, Id.ofField_encode, ok_bind]
    rfl
  | updateEscrowParties parties =>
    simp only [toWire, bind_eq_ok, pure_eq_ok] at h
    obtain ⟨m, hm, rfl⟩ := h
    simp only [ofWire, EscrowParties.codec.read_write hm, ok_bind]
    rfl
  | createProposal proposal =>
    -- the only message around the bytes of another one
    simp only [toWire, bind_eq_ok, pure_eq_ok] at h
    obtain ⟨m, hm, rfl⟩ := h
    simp only [ofWire, Proposal.ofWire_toWire hm hraw, ok_bind]
    rfl
  | vote v =>
    simp only [toWire, bind_eq_ok, pure_eq_ok] at h
    obtain ⟨m, hm, rfl⟩ := h
    simp only [ofWire, Vote.codec.read_write hm, ok_bind]
    rfl

/-- The normal form of an operation is written as the operation is, if and only
if its electors keep their order. -/
theorem toWire_normal_iff {operation : Operation} {body : Wire.Body}
    (h : operation.toWire network strict = .ok body) (hraw : body.RawFits) :
    (operation.normal network).toWire network strict = .ok body ↔
      operation.ElectorsInOrder network := by
  cases operation with
  | createProposal proposal =>
    simp only [toWire, bind_eq_ok, pure_eq_ok] at h
    obtain ⟨m, hm, rfl⟩ := h
    rw [ElectorsInOrder, ← Proposal.toWire_normal_iff hm hraw]
    simp only [normal, toWire, bind_eq_ok, pure_eq_ok, Wire.Body.createProposal.injEq,
      exists_eq_right]
  | send transfer =>
    simp only [toWire, bind_eq_ok, pure_eq_ok] at h
    obtain ⟨m, hm, rfl⟩ := h
    refine iff_of_true ?_ trivial
    simp only [normal, toWire, Transfer.codec.write_normal hm, ok_bind]
    rfl
  | swapOffer offer =>
    simp only [toWire, bind_eq_ok, pure_eq_ok] at h
    obtain ⟨m, hm, rfl⟩ := h
    refine iff_of_true ?_ trivial
    simp only [normal, toWire, SwapOffer.codec.write_normal hm, ok_bind]
    rfl
  | transferUsername username newOwner =>
    simp only [toWire, bind_eq_ok, pure_eq_ok] at h
    obtain ⟨hash, hhash, rfl⟩ := h
    refine iff_of_true ?_ trivial
    simp only [normal, toWire, Address.decodeFor_canonical hhash, ok_bind]
    rfl
  | updateAccountConfiguration configuration =>
    simp only [toWire, bind_eq_ok, pure_eq_ok] at h
    obtain ⟨m, hm, rfl⟩ := h
    refine iff_of_true ?_ trivial
    simp only [normal, toWire, AccountConfiguration.codec.write_normal hm, ok_bind]
    rfl
  | registerDomain registration =>
    simp only [toWire, bind_eq_ok, pure_eq_ok] at h
    obtain ⟨m, hm, rfl⟩ := h
    refine iff_of_true ?_ trivial
    simp only [normal, toWire, DomainRegistration.codec.write_normal hm, ok_bind]
    rfl
  | transferDomain domain newAdmin =>
    simp only [toWire, bind_eq_ok, pure_eq_ok] at h
    obtain ⟨hash, hhash, rfl⟩ := h
    refine iff_of_true ?_ trivial
    simp only [normal, toWire, Address.decodeFor_canonical hhash, ok_bind]
    rfl
  | registerAccount registration =>
    simp only [toWire, bind_eq_ok, pure_eq_ok] at h
    obtain ⟨m, hm, rfl⟩ := h
    refine iff_of_true ?_ trivial
    simp only [normal, toWire, AccountRegistration.codec.write_normal hm, ok_bind]
    rfl
  | transferAccount domain name newOwner =>
    simp only [toWire, bind_eq_ok, pure_eq_ok] at h
    obtain ⟨hash, hhash, rfl⟩ := h
    refine iff_of_true ?_ trivial
    simp only [normal, toWire, Address.decodeFor_canonical hhash, ok_bind]
    rfl
  | replaceAccountMessageFees domain newMessageFees =>
    simp only [toWire, bind_eq_ok, pure_eq_ok] at h
    obtain ⟨fees, hfees, rfl⟩ := h
    refine iff_of_true ?_ trivial
    simp only [normal, toWire, MessageFee.codec.list.write_normal hfees, ok_bind]
    rfl
  | createContract terms =>
    simp only [toWire, bind_eq_ok, pure_eq_ok] at h
    obtain ⟨participants, hparticipants, rfl⟩ := h
    refine iff_of_true ?_ trivial
    simp only [normal, toWire, ContractTerms.listToWire_normal hparticipants, ok_bind]
    rfl
  | updateContract contractId terms =>
    simp only [toWire, bind_eq_ok, pure_eq_ok] at h
    obtain ⟨participants, hparticipants, rfl⟩ := h
    refine iff_of_true ?_ trivial
    simp only [normal, toWire, ContractTerms.listToWire_normal hparticipants, ok_bind]
    rfl
  | createEscrow escrow =>
    simp only [toWire, bind_eq_ok, pure_eq_ok] at h
    obtain ⟨m, hm, rfl⟩ := h
    refine iff_of_true ?_ trivial
    simp only [normal, toWire, EscrowCreation.codec.write_normal hm, ok_bind]
    rfl
  | releaseEscrow escrowId amounts =>
    simp only [toWire, bind_eq_ok, pure_eq_ok] at h
    obtain ⟨coins, hcoins, rfl⟩ := h
    refine iff_of_true ?_ trivial
    simp only [normal, toWire, Amount.codec.list.write_normal hcoins, ok_bind]
    rfl
  | updateEscrowParties parties =>
    simp only [toWire, bind_eq_ok, pure_eq_ok] at h
    obtain ⟨m, hm, rfl⟩ := h
    refine iff_of_true ?_ trivial
    simp only [normal, toWire, EscrowParties.codec.write_normal hm, ok_bind]
    rfl
  | vote v =>
    simp only [toWire, bind_eq_ok, pure_eq_ok] at h
    obtain ⟨m, hm, rfl⟩ := h
    refine iff_of_true ?_ trivial
    simp only [normal, toWire, Vote.codec.write_normal hm, ok_bind]
    rfl
  -- the rest holds nothing that has two spellings
  | swapClaim _ _ => exact iff_of_true h trivial
  | swapAbort _ => exact iff_of_true h trivial
  | registerUsername _ _ => exact iff_of_true h trivial
  | updateUsernameTargets _ _ => exact iff_of_true h trivial
  | renewDomain _ => exact iff_of_true h trivial
  | deleteDomain _ => exact iff_of_true h trivial
  | replaceAccountTargets _ _ _ => exact iff_of_true h trivial
  | deleteAccount _ _ => exact iff_of_true h trivial
  | deleteAllAccounts _ => exact iff_of_true h trivial
  | renewAccount _ _ => exact iff_of_true h trivial
  | addAccountCertificate _ _ _ => exact iff_of_true h trivial
  | deleteAccountCertificate _ _ _ => exact iff_of_true h trivial
  | returnEscrow _ => exact iff_of_true h trivial

/-- The normal form of an operation is its own. -/
theorem normal_normal {operation : Operation} {body : Wire.Body}
    (h : operation.toWire network strict = .ok body) (hraw : body.RawFits) :
    (operation.normal network).normal network = operation.normal network := by
  by_cases horder : operation.ElectorsInOrder network
  · -- what is written alike is read alike
    have hread := ofWire_toWire ((toWire_normal_iff h hraw).mpr horder) hraw
    rw [ofWire_toWire h hraw] at hread
    exact (Except.ok.inj hread).symm
  · cases operation with
    | createProposal proposal =>
      simp only [toWire, bind_eq_ok, pure_eq_ok] at h
      obtain ⟨m, hm, rfl⟩ := h
      simp only [normal, Proposal.normal_normal hm]
    | _ => exact absurd trivial horder

end Operation

end NameService
