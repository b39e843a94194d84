import NameService.Proofs.Leaf
import NameService.Proofs.Reading
import NameService.Proofs.RoundTrip

/-
  What is read is in normal form.

  A reader spells each leaf itself, and never in another way than the one that it
  has for the bytes in question. So it does not matter in what form a transaction
  came in: what was read of it is written and read back without any change. What is
  proved:
    1. `X.Reads.leaves` — the leaves of all that is read are read from the wire
       (`Leaf.Read`), and thus in normal form (`Leaf.Read.canonical`).
    2. `SignedTransaction.decode_encode_of_decode` — reading, writing and reading
       again gives the signed transaction of the first reading.
-/

namespace NameService

variable {network : Network}

/-- A leaf that is read from the wire. -/
def Leaf.Read (network : Network) : Leaf → Prop
  | address text => ∃ hash, Address.Reads network hash text
  | amount a => ∃ c, Amount.ofCoin c = .ok a
  | memo text => text ≠ ""

/-! ## Normal form -/

theorem Address.canonical_of_reads {hash : Bytes} {text : String} (h : Reads network hash text) :
    canonical network text = text :=
  (canonical_of_decodeFor h.decodeFor).trans h.2

theorem Amount.normal_of_ofCoin {c : Wire.Coin} {a : Amount} (h : ofCoin c = .ok a) :
    a.normal = a :=
  Except.ok.inj ((codec.read_write (toCoin_of_ofCoin h)).symm.trans h)

theorem Leaf.Read.canonical {leaf : Leaf} (h : leaf.Read network) : leaf.Canonical network := by
  cases leaf with
  | address text =>
    obtain ⟨hash, hhash⟩ := h
    exact Address.canonical_of_reads hhash
  | amount a =>
    obtain ⟨c, hc⟩ := h
    exact Amount.normal_of_ofCoin hc
  | memo text => exact h

/-! ## Leaves of what is read -/

namespace Leaf

/-- A list is read element by element. -/
theorem exists_of_forall₂ {α β : Type} {r : α → β → Prop} {as : List α} {bs : List β}
    (h : List.Forall₂ r as bs) : ∀ b ∈ bs, ∃ a, r a b := by
  induction h with
  | nil => exact fun b hb => nomatch hb
  | cons hab _ ih => exact List.forall_mem_cons.mpr ⟨⟨_, hab⟩, ih⟩

theorem exists_of_rel {α β : Type} {r : α → β → Prop} {o : Option α} {x : Option β}
    (h : Option.Rel r o x) : ∀ b ∈ x, ∃ a, r a b := by
  cases h with
  | none => exact fun b hb => nomatch hb
  | some hab =>
    intro b hb
    obtain rfl := Option.some.inj hb
    exact ⟨_, hab⟩

theorem read_of_reads? {hash : Bytes} {o : Option String} (h : Address.Reads? network hash o) :
    ∀ text ∈ o, (address text).Read network := by
  intro text htext
  obtain rfl : o = some text := htext
  exact ⟨hash, h⟩

theorem read_of_reads {c : Option Wire.Coin} {a : Amount} (h : Amount.Reads c a) :
    (amount a).Read network := by
  obtain ⟨coin, -, hcoin⟩ := h
  exact ⟨coin, hcoin⟩

theorem read_of_memo {text : String} {o : Option String} (h : Memo.decode text = o) :
    ∀ leaf ∈ Memo.leaves o, leaf.Read network := by
  subst h
  unfold Memo.decode
  split
  · exact fun leaf hleaf => nomatch hleaf
  · next hne =>
    intro leaf hleaf
    obtain rfl := List.mem_singleton.mp hleaf
    exact hne

end Leaf

open Leaf

theorem Transfer.Reads.leaves {m : Wire.Send} {t : Transfer} (h : Reads network m t) :
    ∀ leaf ∈ t.leaves, leaf.Read network := by
  simp only [Transfer.leaves, List.forall_mem_cons]
  exact ⟨⟨_, h.sender⟩, ⟨_, h.recipient⟩, read_of_reads h.amount, read_of_memo h.memo⟩

theorem Elector.Reads.leaves {ms : List Wire.Elector} {electors : SortedMap UInt32}
    (h : Reads network ms electors) : ∀ leaf ∈ Elector.leaves electors, leaf.Read network := by
  obtain ⟨hlength, rfl⟩ := h
  rw [Elector.leaves, List.forall_mem_map]
  intro e he
  obtain ⟨m, hm, rfl⟩ := List.mem_map.mp (SortedMap.mem_of_mem_ofList he)
  exact ⟨m.address, hlength m hm, rfl⟩

theorem MessageFee.leaves_of_reads {ms : List Wire.MessageFee} {fees : List MessageFee}
    (h : List.Forall₂ Reads ms fees) : ∀ leaf ∈ leaves fees, leaf.Read network := by
  rw [leaves, List.forall_mem_map]
  intro f hf
  obtain ⟨m, hm⟩ := exists_of_forall₂ h f hf
  exact read_of_reads hm.2

theorem ContractTerms.leaves_of_reads {ms : List Wire.Participant} {terms : ContractTerms}
    (h : List.Forall₂ (Participant.Reads network) ms terms.participants) :
    ∀ leaf ∈ terms.leaves, leaf.Read network := by
  rw [leaves, List.forall_mem_map]
  intro p hp
  obtain ⟨m, hm⟩ := exists_of_forall₂ h p hp
  exact ⟨_, hm.1⟩

theorem Action.Reads.leaves {w : Wire.ProposalOption} {action : Action}
    (h : Reads network w action) : ∀ leaf ∈ action.leaves, leaf.Read network := by
  cases h with
  | batch hmembers =>
    rw [Action.leaves, leavesList_eq_flatMap, List.forall_mem_flatMap]
    intro member hmember
    obtain ⟨place, hplace⟩ := exists_of_forall₂ hmembers member hmember
    cases hplace with
    | send ht => exact ht.leaves
  | releaseEscrow hid hcoin hamount => exact List.forall_mem_singleton.mpr ⟨_, hamount⟩
  | send ht => exact ht.leaves
  | updateElectorate hid helectors => exact helectors.leaves
  | setMessageFee hpath hfee => exact List.forall_mem_singleton.mpr (read_of_reads hfee)
  | updateCash hpatch howner hcollector hfee =>
    simp only [Action.leaves, Measure.leaves, List.forall_mem_cons, List.forall_mem_map,
      Option.mem_toList]
    exact ⟨⟨_, howner⟩, ⟨_, hcollector⟩, exists_of_rel hfee⟩
  | updateTxFee hpatch howner hfree hfee =>
    simp only [Action.leaves, Measure.leaves, List.forall_mem_cons, List.forall_mem_map,
      Option.mem_toList]
    exact ⟨⟨_, howner⟩, exists_of_rel hfee⟩
  | updateUsername hpatch howner hname hlabel => exact List.forall_mem_singleton.mpr ⟨_, howner⟩
  | updateAccount hpatch hc => exact List.forall_mem_singleton.mpr ⟨_, hc.owner⟩
  | updateMessageFee hpatch howner hfeeAdmin =>
    simp only [Action.leaves, Measure.leaves, List.forall_mem_cons]
    exact ⟨⟨_, howner⟩, ⟨_, hfeeAdmin⟩, List.forall_mem_nil _⟩
  -- the rest has no leaves
  | textResolution _ => exact List.forall_mem_nil _
  | applyDiff _ => exact List.forall_mem_nil _
  | updateElectionRule _ _ _ _ => exact List.forall_mem_nil _
  | executeMigration _ _ => exact List.forall_mem_nil _
  | upgradeSchema _ _ => exact List.forall_mem_nil _

theorem Operation.Reads.leaves {body : Wire.Body} {operation : Operation}
    (h : Reads network body operation) : ∀ leaf ∈ operation.leaves, leaf.Read network := by
  cases h with
  | send ht => exact ht.leaves
  | createSwap ho =>
    simp only [Operation.leaves, SwapOffer.leaves, List.cons_append, List.forall_mem_cons,
      List.forall_mem_append, List.forall_mem_map]
    exact ⟨⟨_, ho.sender⟩, ⟨_, ho.recipient⟩, exists_of_forall₂ ho.amounts, read_of_memo ho.memo⟩
  | transferUsername husername howner => exact List.forall_mem_singleton.mpr ⟨_, howner⟩
  | updateAccountConfiguration hpatch hc => exact List.forall_mem_singleton.mpr ⟨_, hc.owner⟩
  | registerDomain hr =>
    simp only [Operation.leaves, DomainRegistration.leaves, List.cons_append, List.forall_mem_cons,
      List.forall_mem_append, List.forall_mem_map, Option.mem_toList]
    exact ⟨⟨_, hr.admin⟩, read_of_reads? hr.broker, MessageFee.leaves_of_reads hr.messageFees⟩
  | transferDomain hdomain hadmin => exact List.forall_mem_singleton.mpr ⟨_, hadmin⟩
  | registerAccount hr =>
    simp only [Operation.leaves, AccountRegistration.leaves, List.forall_mem_cons,
      List.forall_mem_map, Option.mem_toList]
    exact ⟨⟨_, hr.owner⟩, read_of_reads? hr.broker⟩
  | transferAccount hdomain hname howner => exact List.forall_mem_singleton.mpr ⟨_, howner⟩
  | replaceMessageFees hdomain hfees => exact MessageFee.leaves_of_reads hfees
  | createContract hparticipants hactivation hadmin =>
    exact ContractTerms.leaves_of_reads hparticipants
  | updateContract hid hparticipants hactivation hadmin =>
    exact ContractTerms.leaves_of_reads hparticipants
  | createEscrow he =>
    simp only [Operation.leaves, EscrowCreation.leaves, List.cons_append, List.forall_mem_cons,
      List.forall_mem_append, List.forall_mem_map]
    exact ⟨⟨_, he.sender⟩, ⟨_, he.arbiter⟩, ⟨_, he.recipient⟩, exists_of_forall₂ he.amounts,
      read_of_memo he.memo⟩
  | releaseEscrow hid hamounts =>
    rw [Operation.leaves, List.forall_mem_map]
    exact exists_of_forall₂ hamounts
  | updateEscrowParties hp =>
    simp only [Operation.leaves, EscrowParties.leaves, List.forall_mem_append, List.forall_mem_map,
      Option.mem_toList]
    exact ⟨⟨read_of_reads? hp.sender, read_of_reads? hp.arbiter⟩, read_of_reads? hp.recipient⟩
  | createProposal hp =>
    obtain ⟨w, -, hw⟩ := hp.action
    exact List.forall_mem_append.mpr ⟨hw.leaves, List.forall_mem_singleton.mpr ⟨_, hp.author⟩⟩
  | vote hv =>
    simp only [Operation.leaves, Vote.leaves, List.forall_mem_map, Option.mem_toList]
    exact read_of_reads? hv.voter
  -- the rest has no leaves
  | releaseSwap _ _ _ _ => exact List.forall_mem_nil _
  | returnSwap _ _ => exact List.forall_mem_nil _
  | registerUsername _ _ => exact List.forall_mem_nil _
  | changeUsernameTargets _ _ => exact List.forall_mem_nil _
  | renewDomain _ => exact List.forall_mem_nil _
  | deleteDomain _ => exact List.forall_mem_nil _
  | replaceTargets _ _ _ => exact List.forall_mem_nil _
  | deleteAccount _ _ => exact List.forall_mem_nil _
  | flushDomain _ => exact List.forall_mem_nil _
  | renewAccount _ _ => exact List.forall_mem_nil _
  | addCertificate _ _ _ _ => exact List.forall_mem_nil _
  | deleteCertificate _ _ _ _ => exact List.forall_mem_nil _
  | returnEscrow _ => exact List.forall_mem_nil _

/-! ## Transactions -/

theorem Fee.Reads.leaves {m : Wire.FeeInfo} {fee : Fee} (h : Reads network m fee) :
    ∀ leaf ∈ fee.leaves, leaf.Read network := by
  simp only [Fee.leaves, List.forall_mem_append, List.forall_mem_map, Option.mem_toList]
  exact ⟨read_of_reads? h.payer, exists_of_rel h.tokens⟩

namespace SignedTransaction

theorem Reads.leaves {chainId : String} {m : Wire.Tx} {s : SignedTransaction}
    (h : Reads chainId m s) :
    ∀ leaf ∈ s.transaction.leaves, leaf.Read s.transaction.network := by
  obtain ⟨body, -, hoperation⟩ := h.operation
  refine List.forall_mem_append.mpr ⟨?_, hoperation.leaves⟩
  rw [List.forall_mem_flatMap]
  intro fee hfee
  obtain ⟨w, hw⟩ := exists_of_rel h.fee fee (Option.mem_toList.mp hfee)
  exact hw.leaves

/-- What is read is in normal form, whatever it is read from. -/
theorem normal_eq_self_of_decode {chainId : String} {bs : Bytes} {s : SignedTransaction}
    (h : decode chainId bs = .ok s) : s.normal = s := by
  obtain ⟨m, -, hm⟩ := reads_of_decode h
  have htransaction : s.transaction.normal = s.transaction :=
    Transaction.normal_eq_self fun leaf hleaf => (hm.leaves leaf hleaf).canonical
  rw [normal, htransaction]

/-- What is read from any bytes is read again from the bytes that it is written as. -/
theorem decode_encode_of_decode {chainId : String} {bs bs' : Bytes} {s : SignedTransaction}
    {strict : Bool} (h : decode chainId bs = .ok s) (hencode : s.encode strict = .ok bs')
    (hlength : bs'.length < 2 ^ 63) : decode chainId bs' = .ok s := by
  obtain ⟨m, -, hm⟩ := reads_of_decode h
  have hread := decode_encode hencode (by omega)
  rw [hm.chainId, normal_eq_self_of_decode h] at hread
  exact hread

/-- A message in front of the signature and without header gets both in their place. -/
theorem decode_encode_of_decode_out_of_order :
    ∃ (bs bs' : Bytes) (s : SignedTransaction), decode "local" bs = .ok s ∧
      s.encode true = .ok bs' ∧ bs'.length < 2 ^ 63 ∧ decode "local" bs' = .ok s ∧ bs' ≠ bs := by
  have hdecode : decode "local" ([154, 3, 54, 18, 20] ++ List.replicate 20 0 ++ [26, 20] ++
        List.replicate 20 0 ++ [34, 8, 16, 7, 26, 4, 67, 65, 83, 72] ++ [18, 40, 18, 34, 10, 32] ++
        List.replicate 32 0 ++ [34, 2, 10, 0]) =
      .ok ⟨⟨"local", none, [], .send {
        sender := "tiov1qqqqqqqqqqqqqqqqqqqqqqqqqqqqqqqqzx8n0d"
        recipient := "tiov1qqqqqqqqqqqqqqqqqqqqqqqqqqqqqqqqzx8n0d"
        amount := ⟨"7", 9, "CASH"⟩
        memo := none }⟩, ⟨0, ⟨.ed25519, List.replicate 32 0⟩, []⟩, []⟩ := by
    decide +kernel
  have hencode : encode true ⟨⟨"local", none, [], .send {
        sender := "tiov1qqqqqqqqqqqqqqqqqqqqqqqqqqqqqqqqzx8n0d"
        recipient := "tiov1qqqqqqqqqqqqqqqqqqqqqqqqqqqqqqqqzx8n0d"
        amount := ⟨"7", 9, "CASH"⟩
        memo := none }⟩, ⟨0, ⟨.ed25519, List.replicate 32 0⟩, []⟩, []⟩ =
      .ok ([18, 40, 18, 34, 10, 32] ++ List.replicate 32 0 ++ [34, 2, 10, 0] ++
        [154, 3, 58, 10, 2, 8, 1, 18, 20] ++ List.replicate 20 0 ++ [26, 20] ++
        List.replicate 20 0 ++ [34, 8, 16, 7, 26, 4, 67, 65, 83, 72]) := by
    decide +kernel
  exact ⟨_, _, _, hdecode, hencode, by decide,
    decode_encode_of_decode hdecode hencode (by decide), by decide⟩

end SignedTransaction

end NameService
