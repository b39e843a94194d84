import NameService.Proofs.Alike
import NameService.Proofs.Hashed

/-
  A chain id matters for the spelling of addresses only.

  A reader is told for which chain it reads, and nothing in the bytes says so. Whether it
  refuses them, with which error, and what it reads apart from the spelling of addresses
  does not depend on the chain. Two networks spell the electors of a proposal with
  different keys; since no network spells two hashes alike, the maps have the same
  entries all the same (`Elector.alike`). What is proved:
    1. `X.alike` — each part is read alike for two networks, once hashes stand in the
       place of addresses.
    2. `SignedTransaction.decode_alike` — so is a signed transaction for two chains, and
       if these share a network it is the same apart from the chain id; the operation
       alone, which can be read without the envelope, is that of the whole.
-/

namespace NameService

open Result

variable {n₁ n₂ : Network}

/-! ## Fields -/

namespace Address

theorem alike_ofField (field : String) (bs : Bytes) :
    Alike hashText (ofField n₁ field bs) (ofField n₂ field bs) := by
  refine Alike.step fun hash => ?_
  simp only [encode]
  split
  · next hlength =>
    have h₁ : Reads n₁ hash (Bech32.encode n₁.hrp hash) := ⟨hlength, rfl⟩
    have h₂ : Reads n₂ hash (Bech32.encode n₂.hrp hash) := ⟨hlength, rfl⟩
    exact .ok (h₁.hashText.trans h₂.hashText.symm)
  · exact .error _

theorem alike_ofField? (field : String) (bs : Bytes) :
    Alike (Option.map hashText) (ofField? n₁ field bs) (ofField? n₂ field bs) := by
  simp only [ofField?]
  split
  · exact .ok rfl
  · exact (alike_ofField field bs).map fun _ _ => congrArg some

end Address

theorem Transfer.alike (m : Wire.Send) : Alike hashed (ofWire n₁ m) (ofWire n₂ m) := by
  refine (Address.alike_ofField _ _).bind fun _ _ hsender => ?_
  refine (Address.alike_ofField _ _).bind fun _ _ hrecipient => ?_
  refine Alike.step fun amount => .pure ?_
  simp only [hashed, hsender, hrecipient]

theorem AccountConfiguration.alike (m : Wire.Update Wire.AccountConfiguration) :
    Alike hashed (ofUpdate n₁ m) (ofUpdate n₂ m) := by
  refine Alike.step fun patch => ?_
  refine (Address.alike_ofField _ _).bind fun _ _ howner => .pure ?_
  simp only [hashed, howner]

theorem Participant.alike (ms : List Wire.Participant) :
    Alike (List.map hashed) (listOfWire n₁ ms) (listOfWire n₂ ms) := by
  refine Alike.mapM (fun ⟨m, position⟩ => ?_) ms.zipIdx
  refine (Address.alike_ofField _ _).bind fun _ _ haddress => .pure ?_
  simp only [hashed, haddress]

/-! ## Electors -/

namespace Elector

/-- An entry of a map of electors with the hash as key. -/
def hashedEntry (e : String × UInt32) : String × UInt32 :=
  (Address.hashText e.1, e.2)

theorem alike_update (m : Wire.Elector) :
    Alike hashedEntry (updateOfWire n₁ m) (updateOfWire n₂ m) := by
  refine (Address.alike_ofField _ _).bind fun _ _ haddress => .pure ?_
  simp only [hashedEntry, haddress]

/-- The keys that are read differ if their hashes do. -/
theorem hashed_ofList {network : Network} {ms : List Wire.Elector}
    {entries : List (String × UInt32)} (h : ms.mapM (updateOfWire network) = .ok entries) :
    hashed (SortedMap.ofList entries) = SortedMap.ofList (entries.map hashedEntry) := by
  obtain ⟨hlengths, rfl⟩ := map_entry_of_mapM h
  refine SortedMap.mapKeys_ofList fun d hd e he heq => ?_
  obtain ⟨m, hm, rfl⟩ := List.mem_map.mp hd
  obtain ⟨m', hm', rfl⟩ := List.mem_map.mp he
  have hread : Address.Reads network m.address (entry network m).1 := ⟨hlengths m hm, rfl⟩
  have hread' : Address.Reads network m'.address (entry network m').1 := ⟨hlengths m' hm', rfl⟩
  rw [hread.hashText, hread'.hashText] at heq
  rw [← hread.2, ← hread'.2, Hex.encode_inj heq]

theorem alike (ms : List Wire.Elector) :
    Alike hashed (updatesOfWire n₁ ms) (updatesOfWire n₂ ms) := by
  refine (Alike.mapM alike_update ms).bind_of_ok fun es es' hes hes' hview => .pure ?_
  rw [hashed_ofList hes, hashed_ofList hes', hview]

end Elector

/-! ## Actions -/

namespace Action

theorem alike_member (place : Wire.BatchPlace) :
    Alike hashed (memberOfWire n₁ place) (memberOfWire n₂ place) := by
  unfold memberOfWire
  split
  · next m =>
    rw [transferOfWire_eq, transferOfWire_eq]
    refine (Transfer.alike m).bind fun _ _ ht => .pure ?_
    simp only [hashed, Measure.hashed, ht]
  · exact .error _

theorem alike (w : Wire.ProposalOption) : Alike hashed (ofWire n₁ w) (ofWire n₂ w) := by
  cases w with
  | batch m =>
    refine (Alike.mapM alike_member m.messages).bind fun _ _ hmembers => .pure ?_
    rw [hashed, hashed, hashedList_eq_map, hashedList_eq_map, hmembers]
  | send m =>
    rw [ofWire, ofWire, transferOfWire_eq, transferOfWire_eq]
    refine (Transfer.alike m).bind fun _ _ ht => .pure ?_
    simp only [hashed, Measure.hashed, ht]
  | updateElectorate m =>
    refine Alike.step fun id => (Elector.alike m.diffElectors).bind fun _ _ helectors => .pure ?_
    simp only [hashed, Measure.hashed, helectors]
  | updateCash m =>
    refine Alike.step fun patch => ?_
    refine (Address.alike_ofField _ _).bind fun _ _ howner => ?_
    refine (Address.alike_ofField _ _).bind fun _ _ hcollector => Alike.step fun fee => .pure ?_
    simp only [hashed, Measure.hashed, howner, hcollector]
  | updateTxFee m =>
    refine Alike.step fun patch => ?_
    refine (Address.alike_ofField _ _).bind fun _ _ howner => Alike.step fun fee => .pure ?_
    simp only [hashed, Measure.hashed, howner]
  | updateUsername m =>
    refine Alike.step fun patch => (Address.alike_ofField _ _).bind fun _ _ howner => .pure ?_
    simp only [hashed, Measure.hashed, howner]
  | updateAccount m =>
    rw [ofWire_updateAccount, ofWire_updateAccount]
    refine (AccountConfiguration.alike m).bind fun _ _ hc => .pure ?_
    simp only [hashed, Measure.hashed, hc]
  | updateMessageFee m =>
    refine Alike.step fun patch => ?_
    refine (Address.alike_ofField _ _).bind fun _ _ howner => ?_
    refine (Address.alike_ofField _ _).bind fun _ _ hfeeAdmin => .pure ?_
    simp only [hashed, Measure.hashed, howner, hfeeAdmin]
  -- the rest is read without a look at the network
  | textResolution m => exact .refl _ _
  | releaseEscrow m => exact .refl _ _
  | applyDiff m => exact .refl _ _
  | updateElectionRule m => exact .refl _ _
  | setMessageFee m => exact .refl _ _
  | executeMigration m => exact .refl _ _
  | upgradeSchema m => exact .refl _ _

theorem alike_decode (bs : Bytes) : Alike hashed (decode n₁ bs) (decode n₂ bs) := by
  unfold decode
  split
  · exact .error _
  · exact .error _
  · exact alike _

end Action

/-! ## Operations -/

theorem SwapOffer.alike (m : Wire.CreateSwap) : Alike hashed (ofWire n₁ m) (ofWire n₂ m) := by
  refine (Address.alike_ofField _ _).bind fun _ _ hsender => ?_
  refine (Address.alike_ofField _ _).bind fun _ _ hrecipient => ?_
  refine Alike.step fun amounts => Alike.step fun hash => .pure ?_
  simp only [hashed, hsender, hrecipient]

theorem DomainRegistration.alike (m : Wire.RegisterDomain) :
    Alike hashed (ofWire n₁ m) (ofWire n₂ m) := by
  refine (Address.alike_ofField _ _).bind fun _ _ hadmin => ?_
  refine (Address.alike_ofField? _ _).bind fun _ _ hbroker => Alike.step fun fees => .pure ?_
  simp only [hashed, hadmin, hbroker]

theorem AccountRegistration.alike (m : Wire.RegisterAccount) :
    Alike hashed (ofWire n₁ m) (ofWire n₂ m) := by
  refine (Address.alike_ofField _ _).bind fun _ _ howner => ?_
  refine (Address.alike_ofField? _ _).bind fun _ _ hbroker => .pure ?_
  simp only [hashed, howner, hbroker]

theorem EscrowCreation.alike (m : Wire.CreateEscrow) :
    Alike hashed (ofWire n₁ m) (ofWire n₂ m) := by
  refine (Address.alike_ofField _ _).bind fun _ _ hsender => ?_
  refine (Address.alike_ofField _ _).bind fun _ _ harbiter => ?_
  refine (Address.alike_ofField _ _).bind fun _ _ hrecipient => Alike.step fun amounts => .pure ?_
  simp only [hashed, hsender, harbiter, hrecipient]

theorem EscrowParties.alike (m : Wire.UpdateEscrowParties) :
    Alike hashed (ofWire n₁ m) (ofWire n₂ m) := by
  refine Alike.step fun id => ?_
  refine (Address.alike_ofField? _ _).bind fun _ _ hsender => ?_
  refine (Address.alike_ofField? _ _).bind fun _ _ harbiter => ?_
  refine (Address.alike_ofField? _ _).bind fun _ _ hrecipient => .pure ?_
  simp only [hashed, hsender, harbiter, hrecipient]

theorem Proposal.alike (m : Wire.CreateProposal) : Alike hashed (ofWire n₁ m) (ofWire n₂ m) := by
  refine Alike.step fun rawOption => ?_
  refine (Action.alike_decode _).bind fun _ _ haction => Alike.step fun id => ?_
  refine (Address.alike_ofField _ _).bind fun _ _ hauthor => .pure ?_
  simp only [hashed, haction, hauthor]

theorem Vote.alike (m : Wire.Vote) : Alike hashed (ofWire n₁ m) (ofWire n₂ m) := by
  refine (Address.alike_ofField? _ _).bind fun _ _ hvoter => ?_
  refine Alike.step fun id => Alike.step fun selection => .pure ?_
  simp only [hashed, hvoter]

namespace Operation

theorem alike (body : Wire.Body) : Alike hashed (ofWire n₁ body) (ofWire n₂ body) := by
  cases body with
  | send m =>
    refine (Transfer.alike m).bind fun _ _ ht => .pure ?_
    simp only [hashed, ht]
  | createSwap m =>
    refine (SwapOffer.alike m).bind fun _ _ ho => .pure ?_
    simp only [hashed, ho]
  | transferUsername m =>
    refine (Address.alike_ofField _ _).bind fun _ _ howner => .pure ?_
    simp only [hashed, howner]
  | updateAccountConfiguration m =>
    refine (AccountConfiguration.alike m).bind fun _ _ hc => .pure ?_
    simp only [hashed, hc]
  | registerDomain m =>
    refine (DomainRegistration.alike m).bind fun _ _ hr => .pure ?_
    simp only [hashed, hr]
  | transferDomain m =>
    refine (Address.alike_ofField _ _).bind fun _ _ hadmin => .pure ?_
    simp only [hashed, hadmin]
  | registerAccount m =>
    refine (AccountRegistration.alike m).bind fun _ _ hr => .pure ?_
    simp only [hashed, hr]
  | transferAccount m =>
    refine (Address.alike_ofField _ _).bind fun _ _ howner => .pure ?_
    simp only [hashed, howner]
  | createContract m =>
    refine (Participant.alike m.participants).bind fun _ _ hparticipants => .pure ?_
    simp only [hashed, ContractTerms.hashed, hparticipants]
  | updateContract m =>
    refine Alike.step fun id => ?_
    refine (Participant.alike m.participants).bind fun _ _ hparticipants => .pure ?_
    simp only [hashed, ContractTerms.hashed, hparticipants]
  | createEscrow m =>
    refine (EscrowCreation.alike m).bind fun _ _ he => .pure ?_
    simp only [hashed, he]
  | updateEscrowParties m =>
    refine (EscrowParties.alike m).bind fun _ _ hp => .pure ?_
    simp only [hashed, hp]
  | createProposal m =>
    refine (Proposal.alike m).bind fun _ _ hp => .pure ?_
    simp only [hashed, hp]
  | vote m =>
    refine (Vote.alike m).bind fun _ _ hv => .pure ?_
    simp only [hashed, hv]
  -- the rest is read without a look at the network
  | releaseEscrow m => exact .refl _ _
  | returnEscrow m => exact .refl _ _
  | registerUsername m => exact .refl _ _
  | changeUsernameTargets m => exact .refl _ _
  | releaseSwap m => exact .refl _ _
  | returnSwap m => exact .refl _ _
  | deleteProposal m => exact .refl _ _
  | tally m => exact .refl _ _
  | replaceMessageFees m => exact .refl _ _
  | renewDomain m => exact .refl _ _
  | deleteDomain m => exact .refl _ _
  | replaceTargets m => exact .refl _ _
  | deleteAccount m => exact .refl _ _
  | flushDomain m => exact .refl _ _
  | renewAccount m => exact .refl _ _
  | addCertificate m => exact .refl _ _
  | deleteCertificate m => exact .refl _ _

end Operation

/-! ## Transactions -/

theorem Fee.alike (m : Wire.FeeInfo) : Alike hashed (ofWire n₁ m) (ofWire n₂ m) := by
  refine (Address.alike_ofField? _ _).bind fun _ _ hpayer => Alike.step fun tokens => .pure ?_
  simp only [hashed, hpayer]

theorem Transaction.alike (m : Wire.Tx) :
    Alike Operation.hashed (operationOfWire n₁ m) (operationOfWire n₂ m) := by
  unfold operationOfWire
  split
  · exact .error _
  · exact Operation.alike _

namespace SignedTransaction

/-- A signed transaction under another chain id. -/
def onChain (chainId : String) (s : SignedTransaction) : SignedTransaction :=
  { s with transaction := { s.transaction with chainId } }

variable {c₁ c₂ : String}

theorem alike (m : Wire.Tx) : Alike hashed (ofWire c₁ m) (ofWire c₂ m) := by
  refine Alike.step fun signatures => ?_
  cases signatures with
  | nil => exact .error _
  | cons primary others =>
    refine (Alike.optionally Fee.alike m.fees).bind fun _ _ hfee => Alike.step fun multisig => ?_
    refine (Transaction.alike m).bind fun _ _ hoperation => .pure ?_
    simp only [hashed, Transaction.hashed, hfee, hoperation]

theorem alike_decode (bs : Bytes) : Alike hashed (decode c₁ bs) (decode c₂ bs) := by
  unfold decode
  split
  · exact .error _
  · exact alike _

theorem alike_of_network_eq (h : Network.ofChainId c₁ = Network.ofChainId c₂) (chainId : String)
    (m : Wire.Tx) : Alike (onChain chainId) (ofWire c₁ m) (ofWire c₂ m) := by
  simp only [ofWire, h]
  refine Alike.step fun signatures => ?_
  cases signatures with
  | nil => exact .error _
  | cons primary others =>
    exact Alike.step fun fee => Alike.step fun multisig => Alike.step fun operation => .pure rfl

theorem map_onChain_ofWire (chainId : String) (m : Wire.Tx) :
    (ofWire chainId m).map (onChain chainId) = ofWire chainId m := by
  cases h : ofWire chainId m with
  | error e => rfl
  | ok s =>
    have hchain : s.transaction.chainId = chainId := (reads_of_ofWire h).chainId
    subst hchain
    rfl

/-- For chains of one network the chain id alone differs. -/
theorem decode_of_network_eq (h : Network.ofChainId c₁ = Network.ofChainId c₂) (bs : Bytes) :
    decode c₂ bs = (decode c₁ bs).map (onChain c₂) := by
  unfold decode
  split
  · rfl
  · next m _ =>
    calc ofWire c₂ m
        = (ofWire c₂ m).map (onChain c₂) := (map_onChain_ofWire c₂ m).symm
      _ = (ofWire c₁ m).map (onChain c₂) := (alike_of_network_eq h c₂ m).map_eq.symm

/-- The operation of a signed transaction is the one that is read from its envelope. -/
theorem operationOfWire_of_ofWire {chainId : String} {m : Wire.Tx} {s : SignedTransaction}
    (h : ofWire chainId m = .ok s) :
    Transaction.operationOfWire (Network.ofChainId chainId) m = .ok s.transaction.operation := by
  obtain ⟨signatures, -, hrest⟩ := bind_eq_ok.mp h
  cases signatures with
  | nil => cases hrest
  | cons primary others =>
    simp only [bind_eq_ok, pure_eq_ok] at hrest
    obtain ⟨fee, -, multisig, -, operation, hoperation, rfl⟩ := hrest
    exact hoperation

/-- Any bytes are read alike for any two chains, and for chains with one prefix the same up
to the chain id. The operation of their envelope is read alike too, and is the one that is
read with all the rest. -/
theorem decode_alike (bs : Bytes) (c₁ c₂ : String) :
    Alike hashed (decode c₁ bs) (decode c₂ bs) ∧
      ((Network.ofChainId c₁).hrp = (Network.ofChainId c₂).hrp →
        decode c₂ bs = (decode c₁ bs).map (onChain c₂)) ∧
      ∀ m, Wire.Message.decode? bs = some m →
        Alike Operation.hashed (Transaction.operationOfWire (Network.ofChainId c₁) m)
            (Transaction.operationOfWire (Network.ofChainId c₂) m) ∧
          ((Network.ofChainId c₁).hrp = (Network.ofChainId c₂).hrp →
            Transaction.operationOfWire (Network.ofChainId c₁) m =
              Transaction.operationOfWire (Network.ofChainId c₂) m) ∧
          ∀ s, decode c₁ bs = .ok s →
            Transaction.operationOfWire (Network.ofChainId c₁) m =
              .ok s.transaction.operation := by
  have hnetwork : (Network.ofChainId c₁).hrp = (Network.ofChainId c₂).hrp →
      Network.ofChainId c₁ = Network.ofChainId c₂ := Network.hrp_inj
  refine ⟨alike_decode bs, fun hhrp => decode_of_network_eq (hnetwork hhrp) bs, ?_⟩
  intro m hm
  refine ⟨Transaction.alike m, fun hhrp => by rw [hnetwork hhrp], ?_⟩
  intro s hs
  rw [decode, hm] at hs
  exact operationOfWire_of_ofWire hs

/-- Two electors have other keys on the main chain than on a local one, with the same
hashes; on a second local chain all is the same. -/
theorem decode_alike_electors :
    ∃ (bs : Bytes) (s₁ s₂ : SignedTransaction), decode "local" bs = .ok s₁ ∧
      decode "iov-mainnet" bs = .ok s₂ ∧ s₁.transaction.operation ≠ s₂.transaction.operation ∧
        s₁.hashed = s₂.hashed ∧ decode "local-2" bs = .ok (s₁.onChain "local-2") ∧
          ∃ m, Wire.Message.decode? bs = some m ∧
            Transaction.operationOfWire .testnet m = .ok s₁.transaction.operation := by
  let raw : Bytes := [234, 4, 62, 18, 8] ++ List.replicate 8 0 ++
    [26, 24, 10, 20] ++ List.replicate 20 0 ++ [16, 1] ++
    [26, 24, 10, 20] ++ List.replicate 20 255 ++ [16, 2]
  let bs : Bytes := [18, 40, 18, 34, 10, 32] ++ List.replicate 32 0 ++ [34, 2, 10, 0] ++
    [202, 4, 99, 26, 65] ++ raw ++ [42, 8] ++ List.replicate 8 0 ++ [58, 20] ++ List.replicate 20 0
  have hlocal : decode "local" bs = .ok ⟨⟨"local", none, [], .createProposal {
        title := ""
        action := .enact (.updateElectorate 0 (SortedMap.ofList
          [("tiov1llllllllllllllllllllllllllllllllwhxug8", 2),
           ("tiov1qqqqqqqqqqqqqqqqqqqqqqqqqqqqqqqqzx8n0d", 1)]))
        description := ""
        electionRuleId := 0
        startTime := 0
        author := "tiov1qqqqqqqqqqqqqqqqqqqqqqqqqqqqqqqqzx8n0d" }⟩,
      ⟨0, ⟨.ed25519, List.replicate 32 0⟩, []⟩, []⟩ := by
    decide +kernel
  have hmain : decode "iov-mainnet" bs = .ok ⟨⟨"iov-mainnet", none, [], .createProposal {
        title := ""
        action := .enact (.updateElectorate 0 (SortedMap.ofList
          [("iov1llllllllllllllllllllllllllllllllqz0cgk", 2),
           ("iov1qqqqqqqqqqqqqqqqqqqqqqqqqqqqqqqqvnwh0u", 1)]))
        description := ""
        electionRuleId := 0
        startTime := 0
        author := "iov1qqqqqqqqqqqqqqqqqqqqqqqqqqqqqqqqvnwh0u" }⟩,
      ⟨0, ⟨.ed25519, List.replicate 32 0⟩, []⟩, []⟩ := by
    decide +kernel
  obtain ⟨halike, -, hoperation⟩ := decode_alike bs "local" "iov-mainnet"
  have hsame := (decode_alike bs "local" "local-2").2.1 rfl
  rw [hlocal] at hsame halike
  rw [hmain] at halike
  cases halike with
  | ok hhashed =>
    obtain ⟨m, hm, -⟩ := reads_of_decode hlocal
    exact ⟨bs, _, _, hlocal, hmain, by decide +kernel, hhashed, hsame, m, hm,
      (hoperation m hm).2.2 _ hlocal⟩

end SignedTransaction

end NameService
