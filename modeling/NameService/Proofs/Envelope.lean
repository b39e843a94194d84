import NameService.Proofs.Reading

/-
  The envelope around an operation is read without loss.

  Signatures, contracts and the fee are checked on reading for just what writing
  demands of them, so each of them is written as it was read. Only the header of the
  fee is not kept: no reader looks at it, and writing sets its own. What is proved:
    1. `Fee.Reads.toWire` — a fee is written as the message that it was read from,
       under the header that writing sets.
    2. `SignedTransaction.envelope_of_decode` — whatever bytes a signed transaction was
       read from, its signatures, contracts and fee are written as those of the
       envelope, in their order and number.
-/

namespace NameService

open Result

variable {network : Network}

/-- An optional value is written as what it was read from, if the value is. -/
theorem Check.optionally_of_rel {α β : Type} {r : α → β → Prop} {g : α → α}
    {write : β → Except Error α} (hwrite : ∀ a b, r a b → write b = .ok (g a)) {o : Option α}
    {x : Option β} (h : Option.Rel r o x) : optionally write x = .ok (o.map g) := by
  cases h with
  | none => rfl
  | some hab => exact map_eq_ok.mpr ⟨_, hwrite _ _ hab, rfl⟩

theorem Check.eq_none_iff_of_rel {α β : Type} {r : α → β → Prop} {o : Option α} {x : Option β}
    (h : Option.Rel r o x) : x = none ↔ o = none := by
  cases h with
  | none => exact iff_of_true rfl rfl
  | some _ => exact iff_of_false (Option.some_ne_none _) (Option.some_ne_none _)

/-- A fee on the wire under the header that writing sets. -/
def Wire.FeeInfo.withHeader (m : Wire.FeeInfo) : Wire.FeeInfo :=
  { m with metadata := Wire.header }

theorem Fee.Reads.toWire {m : Wire.FeeInfo} {fee : Fee} (h : Reads network m fee) :
    fee.toWire network = .ok m.withHeader := by
  have htokens : Check.optionally Amount.toCoin fee.tokens = .ok (m.fees.map id) :=
    Check.optionally_of_rel (g := id) (fun _ _ hc => Amount.toCoin_of_ofCoin hc) h.tokens
  rw [Fee.toWire, h.payer.decodeFor?, ok_bind, htokens, ok_bind, Option.map_id]
  rfl

namespace SignedTransaction

theorem Reads.signatures_toWire {chainId : String} {m : Wire.Tx} {s : SignedTransaction}
    (h : Reads chainId m s) : s.signatures.mapM Signature.toWire = .ok m.signatures :=
  mapM_eq_ok.mpr (h.signatures.flip.imp fun _ _ => Signature.toWire_of_ofWire)

theorem Reads.fee_toWire {chainId : String} {m : Wire.Tx} {s : SignedTransaction}
    (h : Reads chainId m s) :
    Check.optionally (Fee.toWire s.transaction.network) s.transaction.fee =
      .ok (m.fees.map Wire.FeeInfo.withHeader) :=
  Check.optionally_of_rel (fun _ _ hfee => Fee.Reads.toWire hfee) h.fee

/-- The signatures, contracts and fee of a signed transaction are written as those of the
envelope that it was read from, the fee under a header of its own. -/
theorem envelope_of_decode {chainId : String} {bs : Bytes} {s : SignedTransaction}
    (h : decode chainId bs = .ok s) :
    ∃ m : Wire.Tx, Wire.Message.decode? bs = some m ∧
      s.signatures.mapM Signature.toWire = .ok m.signatures ∧
      s.transaction.multisig.map Id.encode = m.multisig ∧
      Check.optionally (Fee.toWire (Network.ofChainId chainId)) s.transaction.fee =
        .ok (m.fees.map Wire.FeeInfo.withHeader) ∧
      (s.transaction.fee = none ↔ m.fees = none) := by
  obtain ⟨m, hm, hreads⟩ := reads_of_decode h
  have hnetwork : s.transaction.network = Network.ofChainId chainId :=
    congrArg Network.ofChainId hreads.chainId
  have hfee := hreads.fee_toWire
  rw [hnetwork] at hfee
  exact ⟨m, hm, hreads.signatures_toWire, hreads.multisig.symm, hfee,
    Check.eq_none_iff_of_rel hreads.fee⟩

/-- Two signers, two contracts out of order, and a fee without a header. -/
theorem envelope_of_decode_two_signers :
    ∃ (bs : Bytes) (s : SignedTransaction) (m : Wire.Tx), decode "local" bs = .ok s ∧
      Wire.Message.decode? bs = some m ∧ s.signatures.mapM Signature.toWire = .ok m.signatures ∧
        s.transaction.multisig.map Id.encode = m.multisig ∧
          Check.optionally (Fee.toWire .testnet) s.transaction.fee =
            .ok (m.fees.map Wire.FeeInfo.withHeader) ∧
              s.transaction.multisig = [4, 3] ∧ s.otherSignatures.length = 1 := by
  have hdecode : decode "local" ([18, 40, 18, 34, 10, 32] ++ List.replicate 32 0 ++
        [34, 2, 10, 0] ++ [18, 42, 8, 5, 18, 34, 10, 32] ++ List.replicate 32 1 ++ [34, 2, 10, 0] ++
        [34, 8] ++ List.replicate 7 0 ++ [4] ++ [34, 8] ++ List.replicate 7 0 ++ [3] ++
        [154, 3, 54, 18, 20] ++ List.replicate 20 0 ++ [26, 20] ++ List.replicate 20 0 ++
        [34, 8, 16, 7, 26, 4, 67, 65, 83, 72] ++
        [10, 32, 18, 20] ++ List.replicate 20 0 ++ [26, 8, 16, 9, 26, 4, 67, 65, 83, 72]) =
      .ok ⟨⟨"local",
        some ⟨some ⟨"9", 9, "CASH"⟩, some "tiov1qqqqqqqqqqqqqqqqqqqqqqqqqqqqqqqqzx8n0d"⟩, [4, 3],
        .send {
          sender := "tiov1qqqqqqqqqqqqqqqqqqqqqqqqqqqqqqqqzx8n0d"
          recipient := "tiov1qqqqqqqqqqqqqqqqqqqqqqqqqqqqqqqqzx8n0d"
          amount := ⟨"7", 9, "CASH"⟩
          memo := none }⟩, ⟨0, ⟨.ed25519, List.replicate 32 0⟩, []⟩,
        [⟨5, ⟨.ed25519, List.replicate 32 1⟩, []⟩]⟩ := by
    decide +kernel
  obtain ⟨m, hm, hsignatures, hmultisig, hfee, -⟩ := envelope_of_decode hdecode
  exact ⟨_, _, m, hdecode, hm, hsignatures, hmultisig, hfee, rfl, rfl⟩

end SignedTransaction

end NameService
