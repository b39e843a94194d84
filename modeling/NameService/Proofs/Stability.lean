import NameService.Proofs.Signing

/-
  Posting what was read from posted bytes.

  A posted transaction is read as its normal form, which is posted as the same
  bytes whatever the spelling of addresses, quantities and memos was. The one
  exception are electors: they are written in the order of their keys' spelling
  and read under respelled keys, so that the same bytes are posted if and only
  if respelling keeps their order (`SignedTransaction.repost_iff`). Two keys of
  different case may spell one address, and then an elector is lost. As before,
  the bound on the length is that of the length prefixes of blocks.
-/

namespace NameService

open Result

namespace Transaction

variable {strict : Bool} {tx : Transaction} {signatures : List Wire.Signature} {m : Wire.Tx}

/-- The normal form of a transaction is written as the transaction is, if and only
if its electors keep their order. -/
theorem toWire_normal_iff (h : tx.toWire strict signatures = .ok m)
    (hlength : (Wire.Message.encode m).length < 2 ^ 64) :
    tx.normal.toWire strict signatures = .ok m ↔ tx.ElectorsInOrder := by
  obtain ⟨fees, hfees, body, hbody, rfl⟩ := toWire_eq_ok.mp h
  have hfees' : Check.optionally (Fee.toWire tx.network) tx.normal.fee = .ok fees :=
    Fee.codec.optional.write_normal hfees
  rw [ElectorsInOrder, ← Operation.toWire_normal_iff hbody (Wire.Tx.rawFits rfl hlength),
    toWire_eq_ok]
  constructor
  · rintro ⟨fees', -, body', hbody', heq⟩
    injection heq with _ _ _ heq
    rw [← Option.some.inj heq]
    exact hbody'
  · exact fun hnormal => ⟨fees, hfees', body, hnormal, rfl⟩

end Transaction

namespace SignedTransaction

variable {strict : Bool} {s : SignedTransaction}

theorem encode_normal_iff {bs : Bytes} (h : s.encode strict = .ok bs)
    (hlength : bs.length < 2 ^ 64) :
    s.normal.encode strict = .ok bs ↔ s.transaction.ElectorsInOrder := by
  obtain ⟨m, hm, rfl⟩ := encode_eq_ok.mp h
  obtain ⟨ms, hms, htx⟩ := toWire_eq_ok.mp hm
  rw [← Transaction.toWire_normal_iff htx hlength, encode_eq_ok]
  constructor
  · rintro ⟨m', hm', heq⟩
    obtain rfl := Wire.Tx.encode_inj hlength heq.symm
    obtain ⟨ms', hms', htx'⟩ := toWire_eq_ok.mp hm'
    obtain rfl : ms = ms' := Except.ok.inj (hms.symm.trans hms')
    exact htx'
  · exact fun hnormal => ⟨m, toWire_eq_ok.mpr ⟨ms, hms, hnormal⟩, rfl⟩

/-- What is read from posted bytes is posted as the same bytes, with the same id
and the same payload for signers, if the electors keep their order, and as other
bytes if they do not. -/
theorem repost_iff {bs : Bytes} (h : s.post = .ok bs) (hlength : bs.length < 2 ^ 63) :
    ∃ s', decode s.transaction.chainId bs = .ok s' ∧
      (s'.post = .ok bs ↔ s.transaction.ElectorsInOrder) ∧
      (s.transaction.ElectorsInOrder → s'.id = s.id ∧
        ∀ nonce, s'.transaction.signingJob true nonce = s.transaction.signingJob true nonce) := by
  have hposted := encode_normal_iff h (by omega)
  refine ⟨s.normal, decode_encode h (by omega), hposted, fun horder => ⟨?_, ?_⟩⟩
  · have hpost : s.normal.post = .ok bs := hposted.mpr horder
    rw [id, id, hpost, h]
  · intro nonce
    obtain ⟨m, hm, rfl⟩ := encode_eq_ok.mp h
    obtain ⟨ms, -, htx⟩ := toWire_eq_ok.mp hm
    have hnormal := (Transaction.toWire_normal_iff htx (by omega)).mpr horder
    have hunsigned : s.normal.transaction.encode true = s.transaction.encode true :=
      (Transaction.encode_of_toWire hnormal).trans (Transaction.encode_of_toWire htx).symm
    rw [Transaction.signingJob, hunsigned]
    rfl

/-- A proposal to change the weights of electors. -/
def reweighing (electors : SortedMap UInt32) : SignedTransaction where
  transaction := {
    chainId := "local"
    fee := none
    multisig := []
    operation := .createProposal {
      title := ""
      action := .enact (.updateElectorate 1 electors)
      description := ""
      electionRuleId := 1
      startTime := 0
      author := "tiov1qqqqqqqqqqqqqqqqqqqqqqqqqqqqqqqqzx8n0d" } }
  primarySignature := ⟨0, ⟨.ed25519, List.replicate 32 0⟩, []⟩
  otherSignatures := []

/-- One elector keeps the order, however its key is spelled. -/
theorem repost_iff_one_elector :
    ∃ (s s' : SignedTransaction) (bs : Bytes), s.post = .ok bs ∧ bs.length < 2 ^ 63 ∧
      decode s.transaction.chainId bs = .ok s' ∧ s'.post = .ok bs := by
  have hpost : (reweighing (.ofList [("TIOV1QQQQQQQQQQQQQQQQQQQQQQQQQQQQQQQQZX8N0D", 1)])).post =
      .ok ([18, 40, 18, 34, 10, 32] ++ List.replicate 32 0 ++ [34, 2, 10, 0] ++
        [202, 4, 81, 10, 2, 8, 1, 26, 43, 234, 4, 40, 10, 2, 8, 1, 18, 8, 0, 0, 0, 0, 0, 0, 0, 1] ++
        [26, 24, 10, 20] ++ List.replicate 20 0 ++ [16, 1] ++
        [42, 8, 0, 0, 0, 0, 0, 0, 0, 1, 58, 20] ++ List.replicate 20 0) := by
    decide +kernel
  obtain ⟨s', hread, hrepost, -⟩ := repost_iff hpost (by decide +kernel)
  refine ⟨_, s', _, hpost, by decide +kernel, hread, hrepost.mpr ?_⟩
  show Elector.InOrder _ _
  decide +kernel

/-- Two keys that spell one address are posted as two electors and read as one:
the posted bytes and the payload for signers change. -/
theorem repost_loses_elector :
    ∃ (s s' : SignedTransaction) (bs : Bytes), s.post = .ok bs ∧ bs.length < 2 ^ 63 ∧
      decode s.transaction.chainId bs = .ok s' ∧ s'.post ≠ .ok bs ∧
      s'.transaction.signingJob true 0 ≠ s.transaction.signingJob true 0 := by
  have hpost : (reweighing (.ofList [("TIOV1QQQQQQQQQQQQQQQQQQQQQQQQQQQQQQQQZX8N0D", 1),
        ("tiov1qqqqqqqqqqqqqqqqqqqqqqqqqqqqqqqqzx8n0d", 2)])).post =
      .ok ([18, 40, 18, 34, 10, 32] ++ List.replicate 32 0 ++ [34, 2, 10, 0] ++
        [202, 4, 107, 10, 2, 8, 1, 26, 69, 234, 4, 66, 10, 2, 8, 1] ++
        [18, 8, 0, 0, 0, 0, 0, 0, 0, 1] ++
        [26, 24, 10, 20] ++ List.replicate 20 0 ++ [16, 1] ++
        [26, 24, 10, 20] ++ List.replicate 20 0 ++ [16, 2] ++
        [42, 8, 0, 0, 0, 0, 0, 0, 0, 1, 58, 20] ++ List.replicate 20 0) := by
    decide +kernel
  have horder : ¬ Elector.InOrder .testnet (.ofList
      [("TIOV1QQQQQQQQQQQQQQQQQQQQQQQQQQQQQQQQZX8N0D", 1),
        ("tiov1qqqqqqqqqqqqqqqqqqqqqqqqqqqqqqqqzx8n0d", 2)]) := by
    decide +kernel
  exact ⟨_, _, _, hpost, by decide +kernel, decode_encode hpost (by decide +kernel),
    mt (encode_normal_iff hpost (by decide +kernel)).mp horder, by decide +kernel⟩

end SignedTransaction

end NameService
