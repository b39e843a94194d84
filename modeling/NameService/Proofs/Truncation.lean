import NameService.Proofs.Reading
import NameService.Proofs.RoundTrip
import NameService.Proofs.Wire.Truncation

/-
  Bytes that are cut off are never read.

  A transaction that is cut between two fields is a well-formed message still, and so
  is an action that is cut down to nothing. What gives the cut away is that the message
  of a transaction, as the action of a proposal, is written behind all other fields and
  demanded by the reader. What is proved:
    1. `Wire.Tx.body_of_cut`, `Wire.ProposalOptions.option_of_cut` — the first few
       fields of a transaction, or of an action, have no message.
    2. `cut_refused` — no part of the bytes of a transaction is read, on any chain, and
       none of those of an action, on any network.
-/

namespace NameService

/-! ## Transactions on the wire -/

namespace Wire

namespace Tx

/-- An item of another field leaves the message of a transaction alone. -/
theorem body_of_step {levels : Nat} {item : Item}
    (htag : item.tag ∉ (Field.union Body.cases).tags) {row row' : Message.Row Tx}
    (h : (Message.layout (α := Tx)).step levels item row = some row') :
    (Message.ofRow row').body = (Message.ofRow row).body := by
  obtain ⟨fees, signatures, multisig, body, ⟨⟩⟩ := row
  obtain ⟨fees', signatures', multisig', body', ⟨⟩⟩ := row'
  show body' = body
  -- the message is the fourth field
  rcases Layout.rest_of_step h with heq | h
  · exact (Prod.mk.inj (Prod.mk.inj (Prod.mk.inj heq).2).2).1
  · rcases Layout.rest_of_step h with heq | h
    · exact (Prod.mk.inj (Prod.mk.inj heq).2).1
    · rcases Layout.rest_of_step h with heq | h
      · exact (Prod.mk.inj heq).1
      · exact Layout.head_of_step htag h

theorem body_of_foldlM {levels : Nat} {items : List Item}
    (htags : ∀ item ∈ items, item.tag ∉ (Field.union Body.cases).tags) {row row' : Message.Row Tx}
    (h : items.foldlM (fun row item => (Message.layout (α := Tx)).step levels item row) row =
      some row') : (Message.ofRow row').body = (Message.ofRow row).body := by
  induction items generalizing row with
  | nil =>
    obtain rfl := Option.some.inj h
    rfl
  | cons item items ih =>
    rw [List.foldlM_cons] at h
    obtain ⟨next, hnext, hrest⟩ := Option.bind_eq_some_iff.mp h
    rw [ih (fun i hi => htags i (List.mem_cons_of_mem _ hi)) hrest]
    exact body_of_step (htags item List.mem_cons_self) hnext

/-- The message of a transaction is written as one field, behind all others. -/
theorem entries_eq_append {m : Tx} {body : Body} (hbody : m.body = some body) :
    ∃ others last, Message.entries m = others ++ [last] ∧
      ∀ e ∈ others, e.tag ∉ (Field.union Body.cases).tags := by
  obtain ⟨last, hlast⟩ : ∃ e, (Field.union Body.cases).write (some body) = [e] :=
    Field.exists_union_write body
  refine ⟨(Field.message 1).write m.fees ++ ((Field.messages 2).write m.signatures ++
    (Field.blocks 4).write m.multisig), last, ?_, ?_⟩
  · rw [entries_eq, hbody, hlast]
    simp
  · intro e he
    have htag : e.tag ∈ [1, 2, 4] := by
      rcases List.mem_append.mp he with he | he
      · exact List.mem_append_left [2, 4] (Field.Lawful.tag_mem _ e he)
      · rcases List.mem_append.mp he with he | he
        · exact List.mem_append_right [1] (List.mem_append_left [4] (Field.Lawful.tag_mem _ e he))
        · exact List.mem_append_right [1, 2] (Field.Lawful.tag_mem _ e he)
    have hdisjoint : ∀ tag ∈ [1, 2, 4], tag ∉ (Field.union Body.cases).tags := by decide
    exact hdisjoint e.tag htag

/-- What is read of a transaction that is cut off has no message. -/
theorem body_of_cut {m m' : Tx} {body : Body} (hbody : m.body = some body)
    (hlength : (Message.encode m).length < 2 ^ 64) {cut : Bytes} (hcut : cut <+: Message.encode m)
    (hne : cut ≠ Message.encode m) (h : Message.decode? cut = some m') : m'.body = none := by
  obtain ⟨k, hk, row, hrow, rfl⟩ := Message.row_of_cut hlength hcut hne h
  obtain ⟨others, last, hentries, htags⟩ := entries_eq_append hbody
  -- the last field is never among the first few
  rw [hentries, List.length_append, List.length_singleton] at hk
  have htake : (Message.entries m).take k = others.take k := by
    rw [hentries, List.take_append_of_le_length (by omega)]
  have hskip : ∀ item ∈ ((Message.entries m).take k).map Item.entry,
      item.tag ∉ (Field.union Body.cases).tags := by
    rw [htake, List.forall_mem_map]
    exact fun e he => htags e (List.mem_of_mem_take he)
  exact body_of_foldlM hskip hrow

end Tx

/-- What is read of an action that is cut off is no action. -/
theorem ProposalOptions.option_of_cut {option : ProposalOption} {m' : ProposalOptions}
    (hlength : (Message.encode (⟨some option⟩ : ProposalOptions)).length < 2 ^ 64) {cut : Bytes}
    (hcut : cut <+: Message.encode (⟨some option⟩ : ProposalOptions))
    (hne : cut ≠ Message.encode (⟨some option⟩ : ProposalOptions))
    (h : Message.decode? cut = some m') : m'.option = none := by
  obtain ⟨k, hk, row, hrow, rfl⟩ := Message.row_of_cut hlength hcut hne h
  obtain ⟨e, he⟩ : ∃ e, (Field.union ProposalOption.cases).write (some option) = [e] :=
    Field.exists_union_write option
  -- there is one field only
  have hentries : Message.entries (⟨some option⟩ : ProposalOptions) = [e] := by
    show (Field.union ProposalOption.cases).write (some option) ++ [] = [e]
    rw [he, List.append_nil]
  rw [hentries, List.length_singleton] at hk
  obtain rfl : k = 0 := by omega
  obtain rfl := Option.some.inj hrow
  rfl

end Wire

/-! ## Reading -/

theorem SignedTransaction.error_of_cut {s : SignedTransaction} {strict : Bool} {bs cut : Bytes}
    (h : s.encode strict = .ok bs) (hlength : bs.length < 2 ^ 63) (hcut : cut <+: bs)
    (hne : cut ≠ bs) (chainId : String) : ∃ e, decode chainId cut = .error e := by
  obtain ⟨m, hm, rfl⟩ := encode_eq_ok.mp h
  obtain ⟨signatures, -, htx⟩ := toWire_eq_ok.mp hm
  obtain ⟨fees, -, body, -, rfl⟩ := Transaction.toWire_eq_ok.mp htx
  cases hread : decode chainId cut with
  | error e => exact ⟨e, rfl⟩
  | ok s' =>
    obtain ⟨m', hm', hreads⟩ := reads_of_decode hread
    obtain ⟨body', hbody', -⟩ := hreads.operation
    rw [Wire.Tx.body_of_cut rfl (by omega) hcut hne hm'] at hbody'
    cases hbody'

theorem Action.error_of_cut {network : Network} {action : Action} {bs cut : Bytes}
    (h : action.encode network = .ok bs) (hlength : bs.length < 2 ^ 63) (hcut : cut <+: bs)
    (hne : cut ≠ bs) (reader : Network) : ∃ e, decode reader cut = .error e := by
  obtain ⟨w, -, rfl⟩ := encode_eq_ok.mp h
  rw [decode]
  split
  · exact ⟨_, rfl⟩
  · exact ⟨_, rfl⟩
  · next option hread => cases Wire.ProposalOptions.option_of_cut (by omega) hcut hne hread

/-- Neither a signed transaction nor an action is read from a part of its bytes, wherever
these are cut and for whatever chain they are read. -/
theorem cut_refused :
    (∀ (s : SignedTransaction) (strict : Bool) (bs cut : Bytes) (chainId : String),
      s.encode strict = .ok bs → bs.length < 2 ^ 63 → cut <+: bs → cut ≠ bs →
        ∃ e, SignedTransaction.decode chainId cut = .error e) ∧
      ∀ (p q : Network) (action : Action) (bs cut : Bytes),
        action.encode p = .ok bs → bs.length < 2 ^ 63 → cut <+: bs → cut ≠ bs →
          ∃ e, Action.decode q cut = .error e :=
  ⟨fun _ _ _ _ chainId h hlength hcut hne =>
      SignedTransaction.error_of_cut h hlength hcut hne chainId,
    fun _ q _ _ _ h hlength hcut hne => Action.error_of_cut h hlength hcut hne q⟩

/-- A cut behind the signatures leaves a well-formed message, and so does a cut at the very
start; both are refused. -/
theorem cut_refused_between_fields :
    (∃ (s : SignedTransaction) (bs cut : Bytes) (m : Wire.Tx), s.encode true = .ok bs ∧
      cut <+: bs ∧ Wire.Message.decode? cut = some m ∧ m.signatures ≠ [] ∧
        ∃ e, SignedTransaction.decode "iov-mainnet" cut = .error e) ∧
      ∃ (action : Action) (bs : Bytes), action.encode .testnet = .ok bs ∧
        Wire.Message.decode? [] = some (⟨none⟩ : Wire.ProposalOptions) ∧
          ∃ e, Action.decode .mainnet [] = .error e := by
  have hencode : SignedTransaction.encode true ⟨⟨"local", none, [], .renewDomain "iov"⟩,
        ⟨0, ⟨.ed25519, List.replicate 32 0⟩, []⟩, []⟩ =
      .ok ([18, 40, 18, 34, 10, 32] ++ List.replicate 32 0 ++ [34, 2, 10, 0] ++
        [170, 5, 9, 10, 2, 8, 1, 18, 3, 105, 111, 118]) := by
    decide +kernel
  have hread : Wire.Message.decode? ([18, 40, 18, 34, 10, 32] ++ List.replicate 32 0 ++
      [34, 2, 10, 0]) = some (⟨none, [⟨0, some ⟨some (List.replicate 32 0)⟩, some ⟨some []⟩⟩], [],
        none⟩ : Wire.Tx) := by
    decide +kernel
  have haction : Action.encode .testnet (.enact (.textResolution "yes")) =
      .ok [250, 4, 9, 10, 2, 8, 1, 18, 3, 121, 101, 115] := by
    decide +kernel
  obtain ⟨htransaction, hproposal⟩ := cut_refused
  exact ⟨⟨_, _, _, _, hencode, List.prefix_append _ _, hread, by decide,
      htransaction _ true _ _ _ hencode (by decide) (List.prefix_append _ _) (by decide)⟩,
    _, _, haction, rfl, hproposal _ _ _ _ _ haction (by decide) (List.nil_prefix) (by decide)⟩

end NameService
