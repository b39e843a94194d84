import NameService.Proofs.Acceptance
import NameService.Proofs.Envelope
import NameService.Proofs.FixedPoint
import NameService.Proofs.Validators
import NameService.Transaction.Signing

/-
  Which transactions are read but not written again.

  The reader asks for less than the writer does: it takes memos of any length, and
  does not look at the rules that the chain has beyond the form of its messages.
  `Operation.Fault` lists what is left for the writer to object to, with the error
  that it reports. What is proved:
    1. `Operation.Reads.wellFormed` — the forms that the writer asks for are those
       that the reader has made sure of.
    2. `Operation.fault_of_error` — the writer's error on what was read is that of a
       fault.
    3. `SignedTransaction.encode_error_iff_of_decode` — a signed transaction that
       was read is refused exactly if it has a fault, and for such a reason.
-/

namespace NameService

open Result

variable {network : Network} {strict : Bool}

/-! ## Faults -/

/-- A text is the memo of a transfer that is proposed, alone or in a batch. -/
def Action.HoldsMemo : Action → String → Prop
  | .enact (.send t), text => t.memo = some text
  | .batch members, text => ∃ t, .enact (.send t) ∈ members ∧ t.memo = some text
  | _, _ => False

/-- A text is the memo of a transfer, a swap offer, a new escrow, or a proposed
transfer. -/
def Operation.HoldsMemo : Operation → String → Prop
  | .send t, text => t.memo = some text
  | .swapOffer o, text => o.memo = some text
  | .createEscrow e, text => e.memo = some text
  | .createProposal p, text => p.action.HoldsMemo text
  | _, _ => False

/-- A memo is longer than the chain takes, and `e` reports this. -/
def Memo.TooLong (memo : Option String) (e : Error) : Prop :=
  ∃ text, memo = some text ∧ 128 < (Bytes.ofText text).length ∧
    e = .memoTooLong 128 (Bytes.ofText text).length

/-- A rule that an operation breaks, however strict the writer is. -/
inductive Operation.Breaks : Operation → Violation → Prop
  /-- A username comes without its namespace. -/
  | username {username : String} {targets : List Target}
    (h : ∀ name : String, username ≠ name ++ "*iov") :
    Breaks (.registerUsername username targets) .usernameNamespace
  /-- No party of an escrow is named, or several are. -/
  | parties {p : EscrowParties} (h : p.count ≠ 1) :
    Breaks (.updateEscrowParties p) (.partyCount p.count)
  /-- A validator is not named by a key of 32 bytes. -/
  | validator {p : Proposal} {updates : SortedMap Int64} {e : String × Int64}
    (haction : p.action = .enact (.setValidators updates)) (he : e ∈ updates.entries)
    (hkey : ∀ key : Bytes, key.length = 32 → e.1 ≠ Validator.name key) :
    Breaks (.createProposal p) .validatorKey

/-- What a writer objects to in an operation that was read, and its error. -/
inductive Operation.Fault (strict : Bool) (operation : Operation) : Error → Prop
  | memo {text : String} (hmemo : operation.HoldsMemo text)
    (hlong : 128 < (Bytes.ofText text).length) :
    Fault strict operation (.memoTooLong 128 (Bytes.ofText text).length)
  | rule {r : Violation} (h : operation.Breaks r) : Fault strict operation (.violation r)
  /-- Only a strict writer asks who votes. -/
  | voter {v : Vote} (hstrict : strict = true) (hvote : operation = .vote v)
    (hvoter : v.voter = none) : Fault strict operation (.violation .missingVoter)

/-! ## What is read has the form that is written -/

theorem Action.Reads.wellFormed {w : Wire.ProposalOption} {action : Action}
    (h : Reads network w action) : action.WellFormed := by
  cases h with
  | batch hmembers =>
    intro member hmember
    obtain ⟨place, hplace⟩ := Leaf.exists_of_forall₂ hmembers member hmember
    cases hplace with
    | send ht => exact ⟨_, rfl⟩
  | updateElectionRule hid hthreshold hquorum hperiod =>
    constructor
    · intro f hf
      obtain ⟨w, hw⟩ := Leaf.exists_of_rel hthreshold f hf
      exact (Fraction.eq_of_ofWire hw).1
    · intro f hf
      obtain ⟨w, hw⟩ := Leaf.exists_of_rel hquorum f hf
      exact (Fraction.eq_of_ofWire hw).1
  | executeMigration hid hne => exact hne
  | _ => trivial

theorem Operation.Reads.wellFormed {body : Wire.Body} {operation : Operation}
    (h : Reads network body operation) : operation.WellFormed := by
  cases h with
  | createSwap ho => exact ho.length
  | releaseSwap hid hidLength hpreimage hlength => exact ⟨hidLength, hlength⟩
  | returnSwap hid hlength => exact hlength
  | addCertificate hdomain hname hcertificate hne => exact hne
  | deleteCertificate hdomain hname hhash hne => exact hne
  | createProposal hp =>
    obtain ⟨w, -, hw⟩ := hp.action
    exact hw.wellFormed
  | _ => trivial

/-! ## Leaves -/

namespace Leaf.Read

theorem exists_hash {text : String} (h : (address text).Read network) :
    ∃ hash, Address.decodeFor network text = .ok hash := by
  obtain ⟨hash, hhash⟩ := h
  exact ⟨hash, hhash.decodeFor⟩

theorem exists_coin {a : Amount} (h : (amount a).Read network) : ∃ c, a.toCoin = .ok c := by
  obtain ⟨c, hc⟩ := h
  exact ⟨c, Amount.toCoin_of_ofCoin hc⟩

/-- Only a memo can be read and not be valid. -/
theorem valid {leaf : Leaf} (h : leaf.Read network)
    (hmemo : ∀ text, leaf = memo text → (Bytes.ofText text).length ≤ 128) :
    leaf.Valid network := by
  cases leaf with
  | address text => exact (Address.accepts network text).mp h.exists_hash
  | amount a => exact (Amount.accepts a).mp h.exists_coin
  | memo text => exact hmemo text rfl

end Leaf.Read

theorem Memo.mem_leaves {memo : Option String} {text : String} :
    .memo text ∈ leaves memo ↔ memo = some text := by
  simp [leaves]

theorem Action.memo_mem_leaves {action : Action} (h : action.WellFormed) {text : String} :
    .memo text ∈ action.leaves ↔ action.HoldsMemo text := by
  cases action with
  | batch members =>
    rw [leaves, leavesList_eq_flatMap, List.mem_flatMap, HoldsMemo]
    constructor
    · rintro ⟨member, hmember, hmemo⟩
      obtain ⟨t, rfl⟩ := h member hmember
      refine ⟨t, hmember, ?_⟩
      simpa [leaves, Measure.leaves, Transfer.leaves, Memo.mem_leaves] using hmemo
    · rintro ⟨t, ht, hmemo⟩
      refine ⟨_, ht, ?_⟩
      simpa [leaves, Measure.leaves, Transfer.leaves, Memo.mem_leaves] using hmemo
  | enact measure =>
    cases measure <;>
      simp [leaves, Measure.leaves, Transfer.leaves, Memo.mem_leaves, Elector.leaves, HoldsMemo]

theorem Operation.memo_mem_leaves {operation : Operation} (h : operation.WellFormed)
    {text : String} : .memo text ∈ operation.leaves ↔ operation.HoldsMemo text := by
  cases operation with
  | createProposal p =>
    have haction : .memo text ∈ p.action.leaves ↔ p.action.HoldsMemo text :=
      Action.memo_mem_leaves h
    simpa [leaves, Proposal.leaves, HoldsMemo] using haction
  | _ =>
    simp [leaves, HoldsMemo, Transfer.leaves, SwapOffer.leaves, EscrowCreation.leaves,
      DomainRegistration.leaves, AccountRegistration.leaves, MessageFee.leaves,
      ContractTerms.leaves, EscrowParties.leaves, Vote.leaves, Memo.mem_leaves]

/-- What was read without a memo has valid leaves only. -/
theorem Action.leaves_valid {action : Action}
    (hleaves : ∀ leaf ∈ action.leaves, leaf.Read network) (hform : action.WellFormed)
    (hmemo : ∀ text, ¬ action.HoldsMemo text) : ∀ leaf ∈ action.leaves, leaf.Valid network := by
  intro leaf hleaf
  apply (hleaves leaf hleaf).valid
  rintro text rfl
  exact absurd ((memo_mem_leaves hform).mp hleaf) (hmemo text)

theorem Operation.leaves_valid {operation : Operation}
    (hleaves : ∀ leaf ∈ operation.leaves, leaf.Read network) (hform : operation.WellFormed)
    (hmemo : ∀ text, ¬ operation.HoldsMemo text) :
    ∀ leaf ∈ operation.leaves, leaf.Valid network := by
  intro leaf hleaf
  apply (hleaves leaf hleaf).valid
  rintro text rfl
  exact absurd ((memo_mem_leaves hform).mp hleaf) (hmemo text)

/-! ## Rules -/

/-- The rules that are broken are those that make an operation unacceptable, apart from
the one on votes. -/
theorem Operation.not_permitted_iff {operation : Operation} :
    ¬ operation.Permitted strict ↔ (∃ r, operation.Breaks r) ∨
      strict = true ∧ ∃ v, operation = .vote v ∧ v.voter = none := by
  constructor
  · intro h
    cases operation with
    | registerUsername username targets =>
      exact .inl ⟨_, .username fun name hname => h ⟨name, hname⟩⟩
    | updateEscrowParties p => exact .inl ⟨_, .parties (h ∘ EscrowParties.count_eq_one_iff.mp)⟩
    | vote v =>
      simp only [Permitted, ne_eq, Classical.not_imp, not_not] at h
      exact .inr ⟨h.1, v, rfl, h.2⟩
    | createProposal p =>
      cases haction : p.action with
      | batch members => simp [Permitted, haction, Action.Permitted] at h
      | enact measure =>
        cases measure with
        | setValidators updates =>
          simp only [Permitted, haction, Action.Permitted, Measure.Permitted] at h
          push Not at h
          obtain ⟨e, he, hkey⟩ := h
          exact .inl ⟨_, .validator haction he (Validator.not_isName_iff.mp hkey)⟩
        | _ => simp [Permitted, haction, Action.Permitted, Measure.Permitted] at h
    | _ => exact absurd trivial h
  · rintro (⟨r, hbreaks⟩ | ⟨hstrict, v, rfl, hvoter⟩)
    · cases hbreaks with
      | username h => exact not_exists.mpr h
      | parties h => exact h ∘ EscrowParties.count_eq_one_iff.mpr
      | validator haction he hkey =>
        simp only [Permitted, haction, Action.Permitted, Measure.Permitted]
        exact fun h => Validator.not_isName_iff.mpr hkey (h _ he)
    · exact fun h => h hstrict hvoter

/-! ## Errors -/

theorem Memo.tooLong_of_error {memo : Option String} {e : Error}
    (h : encode memo = .error e) : TooLong memo e := by
  simp only [encode] at h
  split at h
  · cases h
  · next hlong =>
    obtain rfl := Except.error.inj h
    cases memo with
    | none => exact absurd (by decide) hlong
    | some text => exact ⟨text, rfl, Nat.not_le.mp hlong, rfl⟩

theorem Transfer.memo_of_error {t : Transfer} (hleaves : ∀ leaf ∈ t.leaves, leaf.Read network)
    {e : Error} (h : t.toWire network = .error e) : Memo.TooLong t.memo e := by
  simp only [leaves, List.forall_mem_cons] at hleaves
  obtain ⟨hsender, hrecipient, hamount, -⟩ := hleaves
  obtain ⟨source, hsource⟩ := hsender.exists_hash
  obtain ⟨destination, hdestination⟩ := hrecipient.exists_hash
  obtain ⟨coin, hcoin⟩ := hamount.exists_coin
  simp only [toWire, hsource, hdestination, hcoin, ok_bind, bind_pure_eq_error] at h
  exact Memo.tooLong_of_error h

theorem Amount.exists_coins {amounts : List Amount}
    (h : ∀ a ∈ amounts, (Leaf.amount a).Read network) : ∃ cs, amounts.mapM toCoin = .ok cs :=
  (Accepts.mapM accepts amounts).mpr fun a ha => (accepts a).mp (h a ha).exists_coin

theorem SwapOffer.memo_of_error {o : SwapOffer} (hleaves : ∀ leaf ∈ o.leaves, leaf.Read network)
    (hlength : o.hash.length = 32) {e : Error} (h : o.toWire network = .error e) :
    Memo.TooLong o.memo e := by
  simp only [leaves, List.cons_append, List.forall_mem_cons, List.forall_mem_append,
    List.forall_mem_map] at hleaves
  obtain ⟨hsender, hrecipient, hamounts, -⟩ := hleaves
  have hhash : Check.exactly "hash" swapHashLength o.hash = .ok o.hash :=
    Check.exactly_eq_ok.mpr ⟨hlength, rfl⟩
  obtain ⟨source, hsource⟩ := hsender.exists_hash
  obtain ⟨destination, hdestination⟩ := hrecipient.exists_hash
  obtain ⟨coins, hcoins⟩ := Amount.exists_coins hamounts
  simp only [toWire, hhash, hsource, hdestination, hcoins, ok_bind, bind_pure_eq_error] at h
  exact Memo.tooLong_of_error h

theorem EscrowCreation.memo_of_error {c : EscrowCreation}
    (hleaves : ∀ leaf ∈ c.leaves, leaf.Read network) {e : Error}
    (h : c.toWire network = .error e) : Memo.TooLong c.memo e := by
  simp only [leaves, List.cons_append, List.forall_mem_cons, List.forall_mem_append,
    List.forall_mem_map] at hleaves
  obtain ⟨hsender, harbiter, hrecipient, hamounts, -⟩ := hleaves
  obtain ⟨source, hsource⟩ := hsender.exists_hash
  obtain ⟨arbiter, harbiter⟩ := harbiter.exists_hash
  obtain ⟨destination, hdestination⟩ := hrecipient.exists_hash
  obtain ⟨coins, hcoins⟩ := Amount.exists_coins hamounts
  simp only [toWire, hsource, harbiter, hdestination, hcoins, ok_bind, bind_pure_eq_error] at h
  exact Memo.tooLong_of_error h

/-- An action that was read is only refused for a memo or for the name of a
validator. -/
theorem Action.fault_of_error {action : Action}
    (hleaves : ∀ leaf ∈ action.leaves, leaf.Read network) (hform : action.WellFormed) {e : Error}
    (h : action.toWire network = .error e) :
    (∃ text, action.HoldsMemo text ∧ 128 < (Bytes.ofText text).length ∧
        e = .memoTooLong 128 (Bytes.ofText text).length) ∨
      ∃ updates entry, action = .enact (.setValidators updates) ∧ entry ∈ updates.entries ∧
        ¬ Validator.IsName entry.1 ∧ e = .violation .validatorKey := by
  have hrefused : ¬ ((∀ leaf ∈ action.leaves, leaf.Valid network) ∧ action.WellFormed ∧
      action.Permitted) := (accepts action).not_of_error h
  cases action with
  | batch members =>
    left
    obtain ⟨member, hmember, herror⟩ := exists_of_mapM_eq_error (bind_pure_eq_error.mp h)
    obtain ⟨t, rfl⟩ := hform member hmember
    have ht : ∀ leaf ∈ t.leaves, leaf.Read network := by
      intro leaf hleaf
      apply hleaves
      rw [leaves, leavesList_eq_flatMap]
      exact List.mem_flatMap.mpr ⟨_, hmember, hleaf⟩
    obtain ⟨text, hmemo, hlong, rfl⟩ := Transfer.memo_of_error ht (bind_pure_eq_error.mp herror)
    exact ⟨text, ⟨t, hmember, hmemo⟩, hlong, rfl⟩
  | enact measure =>
    cases measure with
    | send t => exact .inl (Transfer.memo_of_error hleaves (bind_pure_eq_error.mp h))
    | setValidators updates =>
      right
      obtain ⟨entry, hentry, herror⟩ := exists_of_mapM_eq_error (bind_pure_eq_error.mp h)
      obtain ⟨hname, rfl⟩ := Validator.ofName_eq_error.mp (bind_pure_eq_error.mp herror)
      exact ⟨updates, entry, rfl, hentry, hname, rfl⟩
    -- without memos and rules nothing is left to refuse
    | _ => exact absurd ⟨leaves_valid hleaves hform fun _ => id, hform, trivial⟩ hrefused

/-- An operation that was read is only refused for a fault. -/
theorem Operation.fault_of_error {operation : Operation}
    (hleaves : ∀ leaf ∈ operation.leaves, leaf.Read network) (hform : operation.WellFormed)
    {e : Error} (h : operation.toWire network strict = .error e) : operation.Fault strict e := by
  have hrefused : ¬ ((∀ leaf ∈ operation.leaves, leaf.Valid network) ∧ operation.WellFormed ∧
      operation.Permitted strict) := (accepts network strict operation).not_of_error h
  cases operation with
  | send t =>
    obtain ⟨text, hmemo, hlong, rfl⟩ :=
      Transfer.memo_of_error hleaves (bind_pure_eq_error.mp h)
    exact .memo hmemo hlong
  | swapOffer o =>
    obtain ⟨text, hmemo, hlong, rfl⟩ :=
      SwapOffer.memo_of_error hleaves hform (bind_pure_eq_error.mp h)
    exact .memo hmemo hlong
  | createEscrow c =>
    obtain ⟨text, hmemo, hlong, rfl⟩ :=
      EscrowCreation.memo_of_error hleaves (bind_pure_eq_error.mp h)
    exact .memo hmemo hlong
  | registerUsername username targets =>
    have hcheck : checkUsername username = .error e := bind_pure_eq_error.mp h
    have hname : ¬ ∃ name : String, username = name ++ "*iov" :=
      (checkUsername_accepts username).not_of_error hcheck
    rw [checkUsername] at hcheck
    split at hcheck
    · cases hcheck
    · obtain rfl := Except.error.inj hcheck
      exact .rule (.username (not_exists.mp hname))
  | updateEscrowParties p =>
    have herror : p.toWire network = .error e := bind_pure_eq_error.mp h
    by_cases hcount : p.count = 1
    · have hone : p.NamesOne := EscrowParties.count_eq_one_iff.mp hcount
      exact absurd ⟨leaves_valid hleaves hform fun _ => id, hform, hone⟩ hrefused
    · rw [EscrowParties.toWire, if_pos hcount] at herror
      obtain rfl := Except.error.inj herror
      exact .rule (.parties hcount)
  | vote v =>
    have herror : v.toWire network strict = .error e := bind_pure_eq_error.mp h
    by_cases hvoter : strict = true ∧ v.voter = none
    · have hguard : (strict && v.voter.isNone) = true := by simp [hvoter]
      rw [Vote.toWire, if_pos hguard] at herror
      obtain rfl := Except.error.inj herror
      exact .voter hvoter.1 rfl hvoter.2
    · have hpermitted : strict = true → v.voter ≠ none := not_and.mp hvoter
      exact absurd ⟨leaves_valid hleaves hform fun _ => id, hform, hpermitted⟩ hrefused
  | createProposal p =>
    obtain ⟨haction, hauthor⟩ := List.forall_mem_append.mp hleaves
    obtain ⟨author, hhash⟩ := (List.forall_mem_singleton.mp hauthor).exists_hash
    have herror : p.action.toWire network = .error e := by
      have hproposal : p.toWire network = .error e := bind_pure_eq_error.mp h
      rw [Proposal.toWire, bind_eq_error] at hproposal
      rcases hproposal with hencode | ⟨raw, -, hrest⟩
      · exact bind_pure_eq_error.mp hencode
      · rw [hhash] at hrest
        cases hrest
    rcases Action.fault_of_error haction hform herror with
      ⟨text, hmemo, hlong, rfl⟩ | ⟨updates, entry, hset, hentry, hname, rfl⟩
    · exact .memo hmemo hlong
    · exact .rule (.validator hset hentry (Validator.not_isName_iff.mp hname))
  -- without memos and rules nothing is left to refuse
  | _ => exact absurd ⟨leaves_valid hleaves hform fun _ => id, hform, trivial⟩ hrefused

/-! ## Transactions -/

namespace SignedTransaction

/-- A fault makes a transaction unacceptable. -/
theorem not_acceptable_of_fault {s : SignedTransaction}
    (hform : s.transaction.operation.WellFormed) {e : Error}
    (h : s.transaction.operation.Fault strict e) : ¬ s.Acceptable strict := by
  intro hok
  cases h with
  | @memo text hmemo hlong =>
    have hleaf : .memo text ∈ s.transaction.leaves :=
      List.mem_append_right _ ((Operation.memo_mem_leaves hform).mpr hmemo)
    have hshort := hok.memos text hleaf
    omega
  | rule hbreaks => exact Operation.not_permitted_iff.mpr (.inl ⟨_, hbreaks⟩) hok.permitted
  | voter hstrict hvote hvoter =>
    exact Operation.not_permitted_iff.mpr (.inr ⟨hstrict, _, hvote, hvoter⟩) hok.permitted

/-- A signed transaction that was read is only refused for a fault of its operation. -/
theorem fault_of_error {chainId : String} {m : Wire.Tx} {s : SignedTransaction}
    (hreads : Reads chainId m s) {e : Error} (h : s.encode strict = .error e) :
    s.transaction.operation.Fault strict e := by
  obtain ⟨body, -, hoperation⟩ := hreads.operation
  -- signatures and fee are written, so that the failure is that of the operation
  have herror : s.toWire strict = .error e := bind_pure_eq_error.mp h
  rw [toWire, hreads.signatures_toWire, ok_bind, Transaction.toWire, hreads.fee_toWire, ok_bind,
    bind_pure_eq_error] at herror
  exact Operation.fault_of_error hoperation.leaves hoperation.wellFormed herror

/-- A signed transaction that was read is refused by the writer if and only if its
operation has a fault, whatever it was read from. Its error is that of a fault. -/
theorem encode_error_iff_of_decode {chainId : String} {bs : Bytes} {s : SignedTransaction}
    (h : decode chainId bs = .ok s) :
    (∀ strict, (∃ e, s.encode strict = .error e) ↔
        ∃ e, s.transaction.operation.Fault strict e) ∧
      ((∃ e, s.post = .error e) ↔ ∃ e, s.transaction.operation.Fault true e) ∧
      ∀ strict e, s.encode strict = .error e → s.transaction.operation.Fault strict e := by
  obtain ⟨m, -, hreads⟩ := reads_of_decode h
  have hcause : ∀ strict e, s.encode strict = .error e →
      s.transaction.operation.Fault strict e := fun _ _ => fault_of_error hreads
  have hiff : ∀ strict, (∃ e, s.encode strict = .error e) ↔
      ∃ e, s.transaction.operation.Fault strict e := by
    intro strict
    constructor
    · rintro ⟨e, he⟩
      exact ⟨e, hcause strict e he⟩
    · rintro ⟨e, hfault⟩
      obtain ⟨body, -, hoperation⟩ := hreads.operation
      cases hencode : s.encode strict with
      | error e' => exact ⟨e', rfl⟩
      | ok bs' =>
        have hok := (accepts s).mp ⟨bs', hencode⟩
        exact absurd hok (not_acceptable_of_fault hoperation.wellFormed hfault)
  exact ⟨hiff, hiff true, hcause⟩

/-- A vote that does not say who votes is read, and only refused by a strict writer. -/
theorem encode_error_iff_of_decode_vote :
    ∃ (bs : Bytes) (s : SignedTransaction), decode "local" bs = .ok s ∧
      s.transaction.operation.Fault true (.violation .missingVoter) ∧
        ∀ e, ¬ s.transaction.operation.Fault false e := by
  have hdecode : decode "local" ([18, 40, 18, 34, 10, 32] ++ List.replicate 32 0 ++
        [34, 2, 10, 0] ++ [218, 4, 16, 10, 2, 8, 1, 18, 8, 0, 0, 0, 0, 0, 0, 0, 1, 32, 1]) =
      .ok ⟨⟨"local", none, [], .vote ⟨1, .yes, none⟩⟩,
        ⟨0, ⟨.ed25519, List.replicate 32 0⟩, []⟩, []⟩ := by
    decide +kernel
  have hstrict : encode true ⟨⟨"local", none, [], .vote ⟨1, .yes, none⟩⟩,
      ⟨0, ⟨.ed25519, List.replicate 32 0⟩, []⟩, []⟩ = .error (.violation .missingVoter) := by
    decide +kernel
  have hlenient : encode false ⟨⟨"local", none, [], .vote ⟨1, .yes, none⟩⟩,
      ⟨0, ⟨.ed25519, List.replicate 32 0⟩, []⟩, []⟩ =
      .ok ([18, 40, 18, 34, 10, 32] ++ List.replicate 32 0 ++ [34, 2, 10, 0] ++
        [218, 4, 16, 10, 2, 8, 1, 18, 8, 0, 0, 0, 0, 0, 0, 0, 1, 32, 1]) := by
    decide +kernel
  obtain ⟨hiff, -, hcause⟩ := encode_error_iff_of_decode hdecode
  refine ⟨_, _, hdecode, hcause true _ hstrict, ?_⟩
  intro e hfault
  obtain ⟨e', he'⟩ := (hiff false).mpr ⟨e, hfault⟩
  rw [hlenient] at he'
  cases he'

end SignedTransaction

end NameService
