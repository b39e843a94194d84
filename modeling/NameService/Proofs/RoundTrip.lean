import NameService.Proofs.Operations
import NameService.Transaction.Envelope

/-
  Signed transactions are read back in their normal form.

  What is proved:
    1. `Transaction.read_toWire` — fee, contracts and operation of a transaction
       are read from its envelope in their normal form, under whatever
       signatures.
    2. `SignedTransaction.decode_encode_eq_normal` — the bytes of a signed transaction are
       read as its normal form, whatever the strictness was, and as the
       transaction itself if this is in normal form.

  The bound on the length is that of the length prefixes of blocks.
-/

namespace NameService

open Result

/-! ## The envelope -/

theorem Fee.codec {network : Network} :
    Codec (Fee.toWire network) (Fee.ofWire network) (Fee.normal network) where
  read_write {fee m} h := by
    simp only [Fee.toWire, bind_eq_ok, pure_eq_ok] at h
    obtain ⟨payer, hpayer, tokens, htokens, rfl⟩ := h
    simp only [Fee.ofWire, (Address.optionalCodec _).read_write hpayer,
      Amount.codec.optional.read_write htokens, ok_bind]
    rfl
  write_normal {fee m} h := by
    simp only [Fee.toWire, bind_eq_ok, pure_eq_ok] at h ⊢
    obtain ⟨payer, hpayer, tokens, htokens, rfl⟩ := h
    exact ⟨payer, Address.decodeFor?_canonical hpayer,
      tokens, Amount.codec.optional.write_normal htokens, rfl⟩

/-- The fields of an envelope, in the order in which they are written. -/
theorem Wire.Tx.entries_eq (m : Wire.Tx) :
    Wire.Message.entries m = (Wire.Field.message 1).write m.fees ++
      ((Wire.Field.messages 2).write m.signatures ++
        ((Wire.Field.blocks 4).write m.multisig ++
          ((Wire.Field.union Wire.Body.cases).write m.body ++ []))) := rfl

/-- The bytes of an action are fewer than those of the transaction around it. -/
theorem Wire.Tx.rawFits {m : Wire.Tx} {body : Wire.Body} (hbody : m.body = some body)
    (h : (Wire.Message.encode m).length < 2 ^ 64) : body.RawFits := by
  cases body with
  | createProposal p =>
    show p.rawOption.length < 2 ^ 64
    -- an empty block is left out and has no entry
    by_cases hempty : p.rawOption = []
    · rw [hempty]
      decide
    · have hraw : ⟨3, .block p.rawOption⟩ ∈ Wire.Message.entries p := by
        have hwrite : (Wire.Field.scalar 3 Wire.Scalar.bytes).write p.rawOption =
            [⟨3, .block p.rawOption⟩] := if_neg hempty
        refine List.mem_append_right _ (List.mem_append_right _ (List.mem_append_left _ ?_))
        exact hwrite ▸ List.mem_singleton_self _
      have hproposal : ⟨73, .block (Wire.Message.encode p)⟩ ∈ Wire.Message.entries m := by
        rw [Wire.Tx.entries_eq, hbody]
        refine List.mem_append_right _ (List.mem_append_right _ (List.mem_append_right _ ?_))
        exact List.mem_append_left _ (List.mem_singleton_self _)
      have hinner := Wire.Message.length_block_lt_encode hraw
      have houter := Wire.Message.length_block_lt_encode hproposal
      omega
  | _ => trivial

namespace Transaction

variable {strict : Bool} {tx : Transaction} {signatures : List Wire.Signature} {m : Wire.Tx}

theorem toWire_eq_ok :
    tx.toWire strict signatures = .ok m ↔
      ∃ fees, Check.optionally (Fee.toWire tx.network) tx.fee = .ok fees ∧
      ∃ body, tx.operation.toWire tx.network strict = .ok body ∧
        ⟨fees, signatures, tx.multisig.map Id.encode, some body⟩ = m := by
  simp only [toWire, bind_eq_ok, pure_eq_ok]

theorem mapM_ofField_encode (field : String) (ids : List UInt64) :
    (ids.map Id.encode).mapM (Id.ofField field) = .ok ids := by
  rw [mapM_eq_ok, List.forall₂_map_left_iff, List.forall₂_same]
  exact fun id _ => Id.ofField_encode field id

/-- Fee, contracts and operation are read back under whatever signatures. -/
theorem read_toWire (h : tx.toWire strict signatures = .ok m)
    (hlength : (Wire.Message.encode m).length < 2 ^ 64) :
    Check.optionally (Fee.ofWire tx.network) m.fees = .ok tx.normal.fee ∧
      m.multisig.mapM (Id.ofField "multisig") = .ok tx.multisig ∧
      operationOfWire tx.network m = .ok tx.normal.operation := by
  obtain ⟨fees, hfees, body, hbody, rfl⟩ := toWire_eq_ok.mp h
  refine ⟨Fee.codec.optional.read_write hfees, mapM_ofField_encode "multisig" tx.multisig, ?_⟩
  exact Operation.ofWire_toWire hbody (Wire.Tx.rawFits rfl hlength)

/-- The normal form of a transaction is its own. -/
theorem normal_normal (h : tx.toWire strict signatures = .ok m)
    (hlength : (Wire.Message.encode m).length < 2 ^ 64) : tx.normal.normal = tx.normal := by
  obtain ⟨fees, hfees, body, hbody, rfl⟩ := toWire_eq_ok.mp h
  have hfee : tx.normal.normal.fee = tx.normal.fee := Fee.codec.optional.normal_normal hfees
  have hoperation : tx.normal.normal.operation = tx.normal.operation :=
    Operation.normal_normal hbody (Wire.Tx.rawFits rfl hlength)
  show Transaction.mk _ tx.normal.normal.fee _ tx.normal.normal.operation = tx.normal
  rw [hfee, hoperation]

end Transaction

/-! ## Signed transactions -/

namespace SignedTransaction

variable {strict : Bool} {s : SignedTransaction}

theorem toWire_eq_ok {m : Wire.Tx} :
    s.toWire strict = .ok m ↔ ∃ signatures, s.signatures.mapM Signature.toWire = .ok signatures ∧
      s.transaction.toWire strict signatures = .ok m := by
  simp only [toWire, bind_eq_ok]

theorem encode_eq_ok {bs : Bytes} :
    s.encode strict = .ok bs ↔ ∃ m, s.toWire strict = .ok m ∧ Wire.Message.encode m = bs := by
  simp only [encode, bind_eq_ok, pure_eq_ok]

/-- The wire message of a signed transaction is read as its normal form. -/
theorem ofWire_toWire {m : Wire.Tx} (h : s.toWire strict = .ok m)
    (hlength : (Wire.Message.encode m).length < 2 ^ 64) :
    ofWire s.transaction.chainId m = .ok s.normal := by
  obtain ⟨ms, hms, htx⟩ := toWire_eq_ok.mp h
  obtain ⟨hfee, hmultisig, hoperation⟩ := Transaction.read_toWire htx hlength
  obtain ⟨fees, -, body, -, rfl⟩ := Transaction.toWire_eq_ok.mp htx
  have hread := Signature.codec.list.read_write hms
  rw [List.map_id] at hread
  rw [ofWire]
  simp only [hread, ok_bind, signatures]
  rw [Transaction.network] at hfee hoperation
  simp only [hfee, hmultisig, hoperation, ok_bind]
  rfl

theorem decode_encode {bs : Bytes} (h : s.encode strict = .ok bs) (hlength : bs.length < 2 ^ 64) :
    decode s.transaction.chainId bs = .ok s.normal := by
  obtain ⟨m, hm, rfl⟩ := encode_eq_ok.mp h
  rw [decode, Wire.Tx.decode?_encode m hlength]
  exact ofWire_toWire hm hlength

/-- The normal form of a signed transaction is its own. -/
theorem normal_normal {bs : Bytes} (h : s.encode strict = .ok bs) (hlength : bs.length < 2 ^ 64) :
    s.normal.normal = s.normal := by
  obtain ⟨m, hm, rfl⟩ := encode_eq_ok.mp h
  obtain ⟨ms, -, htx⟩ := toWire_eq_ok.mp hm
  exact congrArg (fun tx => { s with transaction := tx }) (Transaction.normal_normal htx hlength)

/-- The bytes of a signed transaction are read as its normal form. This is its
own normal form, and a transaction in normal form is read back as it is. -/
theorem decode_encode_eq_normal {bs : Bytes} (h : s.encode strict = .ok bs)
    (hlength : bs.length < 2 ^ 63) :
    decode s.transaction.chainId bs = .ok s.normal ∧ s.normal.normal = s.normal ∧
      (s.normal = s → decode s.transaction.chainId bs = .ok s) := by
  have hread := decode_encode h (by omega)
  exact ⟨hread, normal_normal h (by omega), fun hnormal => hread.trans (congrArg _ hnormal)⟩

/-- Letter case, leading zeros and an empty memo are not told apart. -/
theorem decode_encode_eq_normal_send :
    ∃ (s : SignedTransaction) (bs : Bytes), s.encode true = .ok bs ∧ bs.length < 2 ^ 63 ∧
      decode s.transaction.chainId bs = .ok s.normal ∧ s.normal ≠ s := by
  have hencode : encode true ⟨⟨"local", none, [], .send {
        sender := "TIOV1QQQQQQQQQQQQQQQQQQQQQQQQQQQQQQQQZX8N0D"
        recipient := "tiov1qqqqqqqqqqqqqqqqqqqqqqqqqqqqqqqqzx8n0d"
        amount := ⟨"007", 9, "CASH"⟩
        memo := some "" }⟩, ⟨0, ⟨.ed25519, List.replicate 32 0⟩, []⟩, []⟩ =
      .ok ([18, 40, 18, 34, 10, 32] ++ List.replicate 32 0 ++ [34, 2, 10, 0] ++
        [154, 3, 58, 10, 2, 8, 1, 18, 20] ++ List.replicate 20 0 ++ [26, 20] ++
        List.replicate 20 0 ++ [34, 8, 16, 7, 26, 4, 67, 65, 83, 72]) := by
    decide +kernel
  exact ⟨_, _, hencode, by decide, (decode_encode_eq_normal hencode (by decide)).1,
    by decide +kernel⟩

end SignedTransaction

end NameService
