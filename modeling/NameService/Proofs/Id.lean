import NameService.Id
import NameService.Proofs.Numeral

/-
  Ids as keys.

  An id is written in eight bytes and an id with a version in twelve, each part with its
  most significant byte first. Either way the bytes spell one number, and a store that
  sorts its keys by their bytes sorts them by this number. What is proved:
    1. `KeyCodec.of_number` — values that are numbered in their order, and written as
       their numbers in so many bytes, are in the order of their keys.
    2. `Id.keyCodec` and `VersionedId.keyCodec` — both kinds of ids are written so.
    3. `Id.keys_in_order` — reading and writing ids are inverse, and the order is kept.
-/

namespace NameService

/-- Values are written as keys of one width, in an order of their own. Every key of this
width is read, as the value that it is written for, and none of another width. -/
structure KeyCodec {α : Type} (before : α → α → Prop) (field : String) (width : Nat)
    (encode : α → Bytes) (decode : Bytes → Except Error α) : Prop where
  length_encode : ∀ a, (encode a).length = width
  decode_encode : ∀ a, decode (encode a) = .ok a
  encode_decode : ∀ key, key.length = width → ∃ a, decode key = .ok a ∧ encode a = key
  refuses : ∀ key, key.length ≠ width →
    decode key = .error (.invalidLength field width key.length)
  encode_lt_iff : ∀ a b, encode a < encode b ↔ before a b

namespace KeyCodec

variable {α : Type} {before : α → α → Prop} {field : String} {width : Nat} {encode : α → Bytes}
  {decode : Bytes → Except Error α}

theorem eq_ok_of_length {read : Bytes → α} {key : Bytes}
    (hdecode : decode key = Check.exactly field width key >>= fun bs => pure (read bs))
    (hkey : key.length = width) : decode key = .ok (read key) := by
  rw [hdecode, Check.exactly, if_pos hkey]
  rfl

/-- Values with numbers in their order, which the bytes of their keys spell. Reading finds the
value of the number that a key spells, once its width is checked. -/
theorem of_number (number : α → Nat) (read : Bytes → α)
    (hinj : ∀ a b, number a = number b → a = b) (hbefore : ∀ a b, number a < number b ↔ before a b)
    (hlength : ∀ a, (encode a).length = width) (hencode : ∀ a, Bytes.toNat (encode a) = number a)
    (hread : ∀ key, key.length = width → number (read key) = Bytes.toNat key)
    (hdecode : ∀ key, decode key = Check.exactly field width key >>= fun bs => pure (read bs)) :
    KeyCodec before field width encode decode where
  length_encode := hlength
  decode_encode a := by
    have hnumber : number (read (encode a)) = number a := (hread _ (hlength a)).trans (hencode a)
    rw [eq_ok_of_length (hdecode _) (hlength a), hinj _ _ hnumber]
  encode_decode key hkey := by
    refine ⟨read key, eq_ok_of_length (hdecode key) hkey, ?_⟩
    apply Bytes.toNat_inj ((hlength _).trans hkey.symm)
    rw [hencode, hread key hkey]
  refuses key hkey := by
    rw [hdecode, Check.exactly, if_neg hkey]
    rfl
  encode_lt_iff a b := by
    rw [← Bytes.toNat_lt_toNat_iff ((hlength a).trans (hlength b).symm), hencode, hencode, hbefore]

/-- A value is read from its key, and from no other bytes. -/
theorem decode_eq_ok (h : KeyCodec before field width encode decode) {key : Bytes} {a : α} :
    decode key = .ok a ↔ encode a = key := by
  constructor
  · intro hread
    by_cases hkey : key.length = width
    · obtain ⟨b, hb, rfl⟩ := h.encode_decode key hkey
      rw [Except.ok.inj (hread.symm.trans hb)]
    · rw [h.refuses key hkey] at hread
      cases hread
  · rintro rfl
    exact h.decode_encode a

end KeyCodec

/-! ## Ids -/

/-- A field of any name is read as the id that it is written for. -/
theorem Id.keyCodec (field : String) : KeyCodec (· < ·) field 8 encode (decodeAs field) := by
  refine .of_number UInt64.toNat (fun key => UInt64.ofNat (Bytes.toNat key))
    (fun _ _ => UInt64.toNat_inj.mp) (fun _ _ => UInt64.lt_iff_toNat_lt.symm)
    (fun id => Bytes.length_bigEndian 8 id.toNat) ?_ ?_ (fun _ => rfl)
  · intro id
    rw [encode, length, Bytes.toNat_bigEndian]
    exact Nat.mod_eq_of_lt id.toNat_lt
  · intro key hkey
    exact UInt64.toNat_ofNat_of_lt' (Bytes.toNat_lt_of_length hkey)

/-! ## Versioned ids -/

namespace VersionedId

/-- Versioned ids are in the order of their ids, and those of one id in that of their
versions. -/
def Before (v w : VersionedId) : Prop :=
  v.id < w.id ∨ v.id = w.id ∧ v.version < w.version

/-- The number of a versioned id: its id in the places above the four bytes of its version. -/
def number (v : VersionedId) : Nat :=
  256 ^ 4 * v.id.toNat + v.version.toNat

theorem number_inj {v w : VersionedId} (h : number v = number w) : v = w := by
  have hv : v.version.toNat < 256 ^ 4 := v.version.toNat_lt
  have hw : w.version.toNat < 256 ^ 4 := w.version.toNat_lt
  obtain ⟨hid, hversion⟩ := Bytes.place_inj hv hw h
  have hid : v.id = w.id := UInt64.toNat_inj.mp hid
  have hversion : v.version = w.version := UInt32.toNat_inj.mp hversion
  cases v
  cases w
  congr

theorem number_lt_iff {v w : VersionedId} : number v < number w ↔ Before v w := by
  have hv : v.version.toNat < 256 ^ 4 := v.version.toNat_lt
  have hw : w.version.toNat < 256 ^ 4 := w.version.toNat_lt
  rw [number, number, Bytes.place_lt_place_iff hv hw, Before, UInt64.lt_iff_toNat_lt,
    UInt32.lt_iff_toNat_lt, UInt64.toNat_inj]

/-- A key of twelve bytes spells the number of what stands in its first eight and last four. -/
theorem number_split {key : Bytes} (hkey : key.length = 12) :
    number ⟨UInt64.ofNat (Bytes.toNat (key.take 8)), UInt32.ofNat (Bytes.toNat (key.drop 8))⟩ =
      Bytes.toNat key := by
  have hid : (key.take 8).length = 8 := by
    rw [List.length_take]
    omega
  have hversion : (key.drop 8).length = 4 := by
    rw [List.length_drop]
    omega
  rw [number, UInt64.toNat_ofNat_of_lt' (Bytes.toNat_lt_of_length hid),
    UInt32.toNat_ofNat_of_lt' (Bytes.toNat_lt_of_length hversion), ← hversion,
    ← Bytes.toNat_append, List.take_append_drop]

theorem toNat_encode (v : VersionedId) : Bytes.toNat (encode v) = number v := by
  have hid : v.id.toNat < 256 ^ 8 := v.id.toNat_lt
  have hversion : v.version.toNat < 256 ^ 4 := v.version.toNat_lt
  rw [encode, Bytes.toNat_append, Bytes.length_bigEndian, Bytes.toNat_bigEndian,
    Bytes.toNat_bigEndian, Nat.mod_eq_of_lt hid, Nat.mod_eq_of_lt hversion, number]

theorem keyCodec : KeyCodec Before "versioned id" 12 encode decode := by
  refine .of_number number
    (fun key => ⟨UInt64.ofNat (Bytes.toNat (key.take 8)), UInt32.ofNat (Bytes.toNat (key.drop 8))⟩)
    (fun _ _ => number_inj) (fun _ _ => number_lt_iff) ?_ toNat_encode (fun _ => number_split)
    (fun _ => rfl)
  intro v
  rw [encode, List.length_append, Bytes.length_bigEndian, Bytes.length_bigEndian]

end VersionedId

/-- Ids and versioned ids are keys of eight and of twelve bytes in their order: writing and
reading them are inverse to each other, and bytes of any other number are refused with it. -/
theorem Id.keys_in_order :
    KeyCodec (· < ·) "id" 8 Id.encode Id.decode ∧
      KeyCodec VersionedId.Before "versioned id" 12 VersionedId.encode VersionedId.decode :=
  ⟨keyCodec "id", VersionedId.keyCodec⟩

-- the low byte of an id does not decide, and neither does a greater version
example : Id.encode 255 < Id.encode 256 ∧
    VersionedId.encode ⟨1, 4294967295⟩ < VersionedId.encode ⟨2, 0⟩ := by decide

end NameService
