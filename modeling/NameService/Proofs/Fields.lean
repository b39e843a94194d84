import NameService.Proofs.Bech32
import NameService.Proofs.Codec
import NameService.Proofs.Id
import NameService.Proofs.NormalForm

/-
  The fields of messages are read back in their normal form.

  Addresses, amounts and memos have many spellings and are codecs. Ids, names
  of validators and signatures have one spelling each and are read back as they
  were. A map of electors is read back in its normal form too, but this one is
  written in the same way only if the electors keep their order
  (`Elector.toWire_normal_iff`).
-/

namespace NameService

open Result

/-! ## Checks -/

namespace Check

theorem present_eq_ok {field : String} {bs cs : Bytes} :
    present field bs = .ok cs ↔ bs ≠ [] ∧ bs = cs := by
  cases bs with
  | nil => simp [present]
  | cons b bs => simp [present]

theorem exactly_eq_ok {field : String} {length : Nat} {bs cs : Bytes} :
    exactly field length bs = .ok cs ↔ bs.length = length ∧ bs = cs := by
  rw [exactly]
  split
  · next h => simp [h]
  · next h => simp [h]

theorem fixed_of_length {field : String} {length : Nat} {bs : Bytes} (h : bs.length = length)
    (hpos : 0 < length) : fixed field length bs = .ok bs := by
  have hne : bs ≠ [] := List.ne_nil_of_length_pos (h ▸ hpos)
  rw [fixed, present_eq_ok.mpr ⟨hne, rfl⟩, ok_bind]
  exact exactly_eq_ok.mpr ⟨h, rfl⟩

end Check

/-! ## Addresses -/

namespace Address

variable {network : Network}

theorem decodeFor_eq_ok {address : String} {hash : Bytes} :
    decodeFor network address = .ok hash ↔
      decode address = .ok ⟨network.hrp, hash⟩ ∧ hash.length = length := by
  unfold decodeFor
  cases hdecode : decode address with
  | error e => simp
  | ok decoded =>
    obtain ⟨hrp, data⟩ := decoded
    rw [ok_bind]
    split
    · next hprefix =>
      simp only [throw_ne_ok, false_iff, Except.ok.injEq, Decoded.mk.injEq]
      exact fun h => hprefix h.1.1
    · next hprefix =>
      have hprefix : hrp = network.hrp := Classical.not_not.mp hprefix
      split
      · next hlength =>
        simp only [throw_ne_ok, false_iff, Except.ok.injEq, Decoded.mk.injEq]
        exact fun h => hlength (h.1.2 ▸ h.2)
      · next hlength =>
        have hlength : data.length = length := Classical.not_not.mp hlength
        simp only [pure_eq_ok, Except.ok.injEq, Decoded.mk.injEq, hprefix, true_and]
        exact ⟨fun h => ⟨h, h ▸ hlength⟩, And.left⟩

theorem length_of_decodeFor {address : String} {hash : Bytes}
    (h : decodeFor network address = .ok hash) : hash.length = length :=
  (decodeFor_eq_ok.mp h).2

/-- The spelling of a hash is read back. -/
theorem decodeFor_encode {hash : Bytes} (h : hash.length = length) :
    decodeFor network (Bech32.encode network.hrp hash) = .ok hash := by
  have hshort : (Bech32.encode network.hrp hash).length ≤ Bech32.maxLength := by
    have hsymbols := Bech32.length_symbolsOfBytes hash
    have hhrp : network.hrp.length ≤ 4 := by cases network <;> decide
    rw [Bech32.length_encode]
    simp only [length] at h
    simp only [Bech32.maxLength]
    omega
  have hread := Bech32.decode_encode network.hrp hash (by cases network <;> decide)
    (by cases network <;> decide) hshort
  exact decodeFor_eq_ok.mpr ⟨by rw [decode, hread], h⟩

theorem canonical_of_decodeFor {address : String} {hash : Bytes}
    (h : decodeFor network address = .ok hash) :
    canonical network address = Bech32.encode network.hrp hash := by
  rw [canonical, h, ok_bind, encode, if_pos (length_of_decodeFor h)]

theorem decodeFor_canonical {address : String} {hash : Bytes}
    (h : decodeFor network address = .ok hash) :
    decodeFor network (canonical network address) = .ok hash := by
  rw [canonical_of_decodeFor h]
  exact decodeFor_encode (length_of_decodeFor h)

/-- The name of a field matters for errors only. -/
theorem codec (field : String) :
    Codec (decodeFor network) (ofField network field) (canonical network) where
  read_write {address hash} h := by
    have hlength := length_of_decodeFor h
    rw [ofField, Check.fixed_of_length hlength (by decide), ok_bind, canonical_of_decodeFor h,
      encode, if_pos hlength]
  write_normal := decodeFor_canonical

theorem decodeFor?_canonical {address : Option String} {hash : Bytes}
    (h : decodeFor? network address = .ok hash) :
    decodeFor? network (address.map (canonical network)) = .ok hash := by
  cases address with
  | none => exact h
  | some address => exact decodeFor_canonical h

/-- A hash in a field that may be empty is not empty. -/
theorem optionalCodec (field : String) :
    Codec (decodeFor? network) (ofField? network field) (Option.map (canonical network)) where
  read_write {address hash} h := by
    cases address with
    | none =>
      obtain rfl : [] = hash := by simpa [decodeFor?] using h
      rfl
    | some address =>
      have hread := (codec field).read_write h
      have hpresent : ¬ hash.isEmpty = true := by
        intro hempty
        have hlength := length_of_decodeFor h
        simp [List.isEmpty_iff.mp hempty, length] at hlength
      rw [ofField?, if_neg hpresent, hread]
      rfl
  write_normal := decodeFor?_canonical

end Address

/-! ## Amounts -/

namespace Amount

/-- What an amount with a coin has, and which coin. -/
theorem toCoin_eq_ok {a : Amount} {c : Wire.Coin} :
    a.toCoin = .ok c ↔ a.fractionalDigits.toNat = places ∧
      ∃ n, Decimal.ofText? a.quantity = some n ∧ n / unit < 2 ^ 63 ∧
        ⟨Int64.ofNat (n / unit), Int64.ofNat (n % unit), a.ticker⟩ = c := by
  unfold toCoin
  split
  · next hdigits => simp [hdigits]
  · next hdigits =>
    have hdigits : a.fractionalDigits.toNat = places := Classical.not_not.mp hdigits
    split
    · next hnone => simp [hnone]
    · next n hn =>
      have hbound : ((n / unit : Nat) : Int) ≤ Int64.maxValue.toInt ↔ n / unit < 2 ^ 63 := by
        rw [show Int64.maxValue.toInt = 9223372036854775807 from rfl]
        omega
      split
      · next hle =>
        constructor
        · intro h
          exact ⟨hdigits, n, hn, hbound.mp hle, Except.ok.inj h⟩
        · rintro ⟨-, n', hn', -, rfl⟩
          obtain rfl := Option.some.inj (hn.symm.trans hn')
          rfl
      · next hle =>
        constructor
        · intro h
          cases h
        · rintro ⟨-, n', hn', hlt, -⟩
          obtain rfl := Option.some.inj (hn.symm.trans hn')
          exact absurd (hbound.mpr hlt) hle

/-- Both parts of a count that is in range fit into 64 bits. -/
theorem toInt_parts {n : Nat} (h : n / unit < 2 ^ 63) :
    (Int64.ofNat (n / unit)).toInt = ((n / unit : Nat) : Int) ∧
      (Int64.ofNat (n % unit)).toInt = ((n % unit : Nat) : Int) := by
  have hrest : n % unit < unit := Nat.mod_lt n (by decide)
  have hunit : unit < 2 ^ 63 := by decide
  exact ⟨Int64.toInt_ofNat_of_lt h, Int64.toInt_ofNat_of_lt (Nat.lt_trans hrest hunit)⟩

theorem codec : Codec toCoin ofCoin normal where
  read_write {a c} h := by
    obtain ⟨hdigits, n, hn, hlt, rfl⟩ := toCoin_eq_ok.mp h
    obtain ⟨hwhole, hfractional⟩ := toInt_parts hlt
    have hrest : n % unit < unit := Nat.mod_lt n (by decide)
    have hquantity : Decimal.toText n = String.ofList (Decimal.strip a.quantity.toList) :=
      Decimal.toText_of_ofText? hn
    have hplaces : UInt32.ofNat places = a.fractionalDigits := by
      rw [← hdigits, UInt32.ofNat_toNat]
    -- both parts are in range, so that the reader refuses neither
    simp only [ofCoin, hwhole, hfractional, Int.toNat_natCast]
    have hnonneg : ∀ m : Nat, ¬ (m : Int) < 0 := fun m => Int.not_lt.mpr (Int.natCast_nonneg m)
    rw [if_neg (hnonneg _), if_neg (hnonneg _), if_neg (Nat.not_le.mpr hrest),
      Nat.div_add_mod', hquantity, hplaces]
    rfl
  write_normal {a c} h := by
    obtain ⟨hdigits, n, hn, hlt, rfl⟩ := toCoin_eq_ok.mp h
    refine toCoin_eq_ok.mpr ⟨hdigits, n, ?_, hlt, rfl⟩
    rw [normal, Decimal.ofText?, String.toList_ofList, Decimal.ofChars?_strip]
    exact hn

@[simp] theorem ofField_some (field : String) (c : Wire.Coin) :
    ofField field (some c) = ofCoin c := rfl

end Amount

/-! ## Memos and ids -/

theorem Memo.codec : Codec Memo.encode (fun text => .ok (Memo.decode text)) Memo.normal where
  read_write {memo text} h := by
    have htext : memo.getD "" = text := by
      simp only [Memo.encode] at h
      split at h
      · exact Except.ok.inj h
      · simp at h
    cases memo with
    | none =>
      obtain rfl : "" = text := htext
      rfl
    | some memo =>
      obtain rfl : memo = text := htext
      by_cases hempty : memo = ""
      · simp [hempty, Memo.decode, Memo.normal, Option.filter]
      · simp [hempty, Memo.decode, Memo.normal, Option.filter]
  write_normal {memo text} h := by
    have hnormal : (Memo.normal memo).getD "" = memo.getD "" := by
      cases memo with
      | none => rfl
      | some memo =>
        by_cases hempty : memo = ""
        · simp [hempty, Memo.normal, Option.filter]
        · simp [hempty, Memo.normal, Option.filter]
    simp only [Memo.encode, hnormal] at h ⊢
    exact h

theorem Memo.decode_of_encode {memo : Option String} {text : String}
    (h : Memo.encode memo = .ok text) : Memo.decode text = Memo.normal memo :=
  Except.ok.inj (Memo.codec.read_write h)

/-- An id is read back from a field of any name. -/
@[simp] theorem Id.ofField_encode (field : String) (id : UInt64) :
    Id.ofField field (Id.encode id) = .ok id := by
  have hlength : (Id.encode id).length = 8 := (Id.keyCodec field).length_encode id
  have hne : Id.encode id ≠ [] := List.ne_nil_of_length_pos (hlength ▸ by decide)
  rw [Id.ofField, Check.present_eq_ok.mpr ⟨hne, rfl⟩, ok_bind]
  exact (Id.keyCodec field).decode_encode id

/-! ## Validators -/

namespace Validator

theorem not_upper_of_isNameDigit {c : Char} (h : isNameDigit c = true) :
    ¬ ('A' ≤ c ∧ c ≤ 'F') := by
  simp only [isNameDigit, Char.isDigit, Char.le_def, UInt32.le_iff_toNat_le, ge_iff_le,
    Bool.or_eq_true, Bool.and_eq_true, decide_eq_true_eq] at h ⊢
  have hcodes : 'A'.val.toNat = 65 ∧ 'F'.val.toNat = 70 ∧ 'a'.val.toNat = 97 ∧
      '0'.val.toNat = 48 ∧ '9'.val.toNat = 57 := by decide
  omega

/-- A name that is read is the name of the key that it is read as. -/
theorem name_of_ofName {validator : String} {publicKey : Bytes}
    (h : ofName validator = .ok publicKey) :
    name publicKey = validator ∧ publicKey.length = keyLength := by
  rw [ofName] at h
  split at h
  · simp at h
  · next digits hprefix =>
    have hsplit : keyHeader.toList ++ digits = validator.toList :=
      List.isPrefixOf?_eq_some_iff_append_eq.mp hprefix
    split at h
    · next hform =>
      obtain ⟨hlength, hdigits⟩ :
          digits.length = 2 * keyLength ∧ ∀ c ∈ digits, isNameDigit c = true := by
        simpa using hform
      have hlower : ∀ c ∈ digits, ¬ ('A' ≤ c ∧ c ≤ 'F') :=
        fun c hc => not_upper_of_isNameDigit (hdigits c hc)
      split at h
      · next key hkey =>
        obtain rfl := Except.ok.inj h
        refine ⟨?_, by have := Hex.length_ofDigits? hkey; omega⟩
        rw [name, Hex.encode, Hex.digits_ofDigits? hkey hlower, ← String.toList_inj,
          String.toList_append, String.toList_ofList, hsplit]
      · simp at h
    · simp at h

/-- What is written of one entry, and what it is read as. -/
theorem updateCodec :
    Codec (fun e : String × Int64 => do
        let publicKey ← ofName e.1
        return (⟨some ⟨scheme, publicKey⟩, e.2⟩ : Wire.ValidatorUpdate))
      updateOfWire id where
  read_write {e m} h := by
    obtain ⟨publicKey, hkey, hm⟩ := bind_eq_ok.mp h
    obtain rfl := pure_eq_ok.mp hm
    obtain ⟨hname, hlength⟩ := name_of_ofName hkey
    have hne : publicKey ≠ [] := List.ne_nil_of_length_pos (hlength ▸ by decide)
    rw [updateOfWire, Check.given, ok_bind, Check.present_eq_ok.mpr ⟨hne, rfl⟩, ok_bind, hname]
    rfl
  write_normal h := h

theorem updatesCodec : Codec updatesToWire updatesOfWire id where
  read_write {updates ms} h := by
    have hread := updateCodec.list.read_write h
    rw [List.map_id] at hread
    rw [updatesOfWire, hread, ok_bind, SortedMap.ofList_entries]
    rfl
  write_normal h := h

end Validator

/-! ## Electors -/

namespace Elector

variable {network : Network}

/-- What is written of one entry, and what it is read as. -/
theorem updateCodec :
    Codec (fun e : String × UInt32 => do
        let address ← Address.decodeFor network e.1
        return (⟨address, e.2⟩ : Wire.Elector))
      (updateOfWire network) (respell network) where
  read_write {e m} h := by
    obtain ⟨hash, hhash, hm⟩ := bind_eq_ok.mp h
    obtain rfl := pure_eq_ok.mp hm
    rw [updateOfWire, (Address.codec "address").read_write hhash]
    rfl
  write_normal {e m} h := by
    obtain ⟨hash, hhash, hm⟩ := bind_eq_ok.mp h
    rw [respell, Address.decodeFor_canonical hhash]
    exact hm

theorem updatesOfWire_toWire {electors : SortedMap UInt32} {ms : List Wire.Elector}
    (h : updatesToWire network electors = .ok ms) :
    updatesOfWire network ms = .ok (normal network electors) := by
  have hread := updateCodec.list.read_write h
  rw [updatesOfWire, hread, ok_bind]
  rfl

theorem updatesCodec :
    Codec (fun es : List (String × UInt32) => es.mapM fun e => do
        let address ← Address.decodeFor network e.1
        return (⟨address, e.2⟩ : Wire.Elector))
      (fun ms => ms.mapM (updateOfWire network)) (List.map (respell network)) :=
  updateCodec.list

/-- The keys of the normal form need no respelling. -/
theorem respelled_normal {electors : SortedMap UInt32} {ms : List Wire.Elector}
    (h : updatesToWire network electors = .ok ms) :
    respelled network (normal network electors) = (normal network electors).entries := by
  have hfixed : ∀ e ∈ respelled network electors, respell network e = e := by
    have hmap := updatesCodec.normal_normal h
    exact List.map_inj_left.mp (hmap.trans (List.map_id _).symm)
  have hkept : ∀ e ∈ (normal network electors).entries, e ∈ respelled network electors :=
    fun e he => SortedMap.mem_of_mem_ofList he
  exact (List.map_congr_left fun e he => hfixed e (hkept e he)).trans (List.map_id _)

theorem normal_normal {electors : SortedMap UInt32} {ms : List Wire.Elector}
    (h : updatesToWire network electors = .ok ms) :
    normal network (normal network electors) = normal network electors := by
  rw [normal, respelled_normal h, SortedMap.ofList_entries]

/-- The normal form of a map of electors is written as the map is, if and only if
the electors keep their order. -/
theorem toWire_normal_iff {electors : SortedMap UInt32} {ms : List Wire.Elector}
    (h : updatesToWire network electors = .ok ms) :
    updatesToWire network (normal network electors) = .ok ms ↔ InOrder network electors := by
  constructor
  · intro hnormal
    -- both maps are written as one list, so they are read as one list
    have heq : respelled network (normal network electors) = respelled network electors :=
      updatesCodec.normal_eq hnormal h
    rw [InOrder, ← heq, respelled_normal h]
    exact (normal network electors).sorted
  · intro horder
    have hentries : (normal network electors).entries = respelled network electors :=
      SortedMap.entries_ofList horder
    rw [updatesToWire, hentries]
    exact updatesCodec.write_normal h

end Elector

/-! ## Parts of other messages -/

theorem Fraction.codec : Codec Fraction.toWire Fraction.ofWire id where
  read_write {f m} h := by
    obtain ⟨g, hcheck, hm⟩ := bind_eq_ok.mp h
    obtain rfl := pure_eq_ok.mp hm
    obtain rfl : f = g := by
      rw [Fraction.check] at hcheck
      split at hcheck
      · simp at hcheck
      · exact Except.ok.inj hcheck
    exact hcheck
  write_normal h := h

theorem MessageFee.codec : Codec MessageFee.toWire MessageFee.ofWire MessageFee.normal where
  read_write {f m} h := by
    obtain ⟨fee, hfee, hm⟩ := bind_eq_ok.mp h
    obtain rfl := pure_eq_ok.mp hm
    rw [MessageFee.ofWire, Amount.ofField_some, Amount.codec.read_write hfee]
    rfl
  write_normal {f m} h := by
    obtain ⟨fee, hfee, hm⟩ := bind_eq_ok.mp h
    rw [MessageFee.toWire, MessageFee.normal, Amount.codec.write_normal hfee]
    exact hm

theorem Target.map_ofWire_toWire (ts : List Target) :
    (ts.map Target.toWire).map Target.ofWire = ts := by
  rw [List.map_map]
  exact List.map_id ts

namespace Participant

variable {network : Network}

theorem toWire_eq_ok {p : Participant} {m : Wire.Participant} :
    toWire network p = .ok m ↔
      Address.decodeFor network p.address = .ok m.signature ∧ m.weight = p.weight := by
  obtain ⟨signature, weight⟩ := m
  simp only [toWire, bind_eq_ok, pure_eq_ok, Wire.Participant.mk.injEq]
  constructor
  · rintro ⟨hash, hhash, rfl, rfl⟩
    exact ⟨hhash, rfl⟩
  · rintro ⟨hhash, rfl⟩
    exact ⟨signature, hhash, rfl, rfl⟩

/-- The position in a list matters for errors only. -/
theorem codec (position : Nat) :
    Codec (toWire network) (ofWire network position) (normal network) where
  read_write {p m} h := by
    obtain ⟨hhash, hweight⟩ := toWire_eq_ok.mp h
    rw [ofWire, (Address.codec _).read_write hhash, ok_bind, hweight]
    rfl
  write_normal {p m} h := by
    obtain ⟨hhash, hweight⟩ := toWire_eq_ok.mp h
    exact toWire_eq_ok.mpr ⟨Address.decodeFor_canonical hhash, hweight⟩

theorem listCodec :
    Codec (listToWire network) (listOfWire network) (List.map (normal network)) where
  read_write h := Codec.read_zipIdx codec h 0
  write_normal h := (codec 0).list.write_normal h

end Participant

namespace Signature

/-- Which signatures can be written, and as what. -/
theorem toWire_eq_ok {s : Signature} {m : Wire.Signature} :
    s.toWire = .ok m ↔ s.publicKey.algorithm = .ed25519 ∧ s.publicKey.data.length = keyLength ∧
      ⟨s.nonce, some ⟨some s.publicKey.data⟩, some ⟨some s.signature⟩⟩ = m := by
  obtain ⟨nonce, ⟨algorithm, data⟩, signature⟩ := s
  cases algorithm with
  | secp256k1 =>
    have hfail : toWire ⟨nonce, ⟨.secp256k1, data⟩, signature⟩ =
        .error (.unsupported .secp256k1) := rfl
    simp [hfail]
  | ed25519 =>
    have hstep : toWire ⟨nonce, ⟨.ed25519, data⟩, signature⟩ =
        (Check.exactly "pubkey" keyLength data).map
          fun key => ⟨nonce, some ⟨some key⟩, some ⟨some signature⟩⟩ := rfl
    rw [hstep, Check.exactly]
    by_cases hlength : data.length = keyLength
    · simp [hlength, Except.map]
    · simp [hlength, Except.map]

theorem codec : Codec toWire ofWire id where
  read_write {s m} h := by
    obtain ⟨nonce, ⟨algorithm, data⟩, signature⟩ := s
    obtain ⟨halgorithm, hlength, rfl⟩ := toWire_eq_ok.mp h
    obtain rfl : algorithm = .ed25519 := halgorithm
    rw [ofWire]
    simp only [Option.bind_some, Check.given, ok_bind]
    rw [Check.exactly, if_pos hlength]
    rfl
  write_normal h := h

end Signature

end NameService
