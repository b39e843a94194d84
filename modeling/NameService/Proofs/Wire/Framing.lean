import Mathlib.Algebra.Group.Nat.Defs
import NameService.Wire.Item

/-
  Integers and items are read back as they were written.

  What is proved:
    1. `Varint.decode_encode` — an integer below 2^64 is read back, whatever
       bytes stand behind it.
    2. `item?_bytes` — the same for a field whose tag, integer or block length
       is in range (`Entry.Fits`).
    3. `items?_entryBytes` — a row of such fields is read back whole.

  A block that is longer than its length prefix can say would break (2). No
  such block occurs in a row of less than 2^64 bytes (`fits_of_length`), which
  is how every later module discharges the range.
-/

namespace NameService.Wire

namespace Varint

/-- The last of `n + 1` groups has room for one bit, each before it for seven. -/
theorem readGroups_groups (n v : Nat) (rest : Bytes) (h : v < 2 ^ (7 * n + 1)) :
    readGroups (n + 1) (groups n v ++ rest) = some (v, rest) := by
  induction n generalizing v with
  | zero =>
    have hb : (UInt8.ofNat v).toNat = v := by
      rw [UInt8.toNat_ofNat']; omega
    simp only [groups, List.singleton_append, readGroups, hb]
    rw [if_pos (by omega), if_neg (by omega)]
  | succ n ih =>
    unfold groups
    split
    · next hv =>
      have hb : (UInt8.ofNat v).toNat = v := by
        rw [UInt8.toNat_ofNat']; omega
      simp only [List.singleton_append, readGroups, hb]
      rw [if_pos hv, if_neg (by omega)]
    · next hv =>
      have hb : (UInt8.ofNat (v % 128 + 128)).toNat = v % 128 + 128 := by
        rw [UInt8.toNat_ofNat']; omega
      have hpow : 2 ^ (7 * (n + 1) + 1) = 128 * 2 ^ (7 * n + 1) := by
        rw [show 7 * (n + 1) + 1 = 7 + (7 * n + 1) by omega, Nat.pow_add]
      have hrest := ih (v / 128) (by omega)
      rw [List.cons_append, readGroups, hb, if_neg (by omega), hrest]
      simp only [Nat.add_sub_cancel, Nat.mod_add_div]

theorem decode_encode (v : Nat) (rest : Bytes) (h : v < 2 ^ 64) :
    decode (encode v ++ rest) = some (v, rest) :=
  readGroups_groups 9 v rest h

theorem length_groups_pos (n v : Nat) : 0 < (groups n v).length := by
  cases n with
  | zero => simp [groups]
  | succ n =>
    unfold groups
    split <;> simp

theorem length_encode_pos (v : Nat) : 0 < (encode v).length :=
  length_groups_pos 9 v

end Varint

/-! ## Fields -/

/-- A value that can be written: an integer in 64 bits, or a block whose length
is one. -/
def Value.Fits : Value → Prop
  | .varint n => n < 2 ^ 64
  | .block bs => bs.length < 2 ^ 64

/-- A tag that fits into a key of 32 bits, next to the form of the value. -/
def TagFits (tag : Nat) : Prop := 1 ≤ tag ∧ tag < 2 ^ 29

instance (tag : Nat) : Decidable (TagFits tag) :=
  inferInstanceAs (Decidable (_ ∧ _))

/-- A field that can be written. -/
structure Entry.Fits (e : Entry) : Prop where
  tag : TagFits e.tag
  value : e.value.Fits

theorem key?_encode (tag number : Nat) (form : Form) (rest : Bytes) (ht : TagFits tag)
    (hn : number < 8) (hf : Form.ofNumber? number = some form) :
    key? (Varint.encode (8 * tag + number) ++ rest) = some ((tag, form), rest) := by
  obtain ⟨hpos, hlt⟩ := ht
  have hmod : (8 * tag + number) % 8 = number := by omega
  have hdiv : (8 * tag + number) / 8 = tag := by omega
  have hrange : 8 * tag + number < UInt32.size ∧ 8 ≤ 8 * tag + number := by
    simp only [UInt32.size]
    omega
  simp only [key?, Varint.decode_encode _ _ (show 8 * tag + number < 2 ^ 64 by omega),
    Option.bind_eq_bind, Option.bind_some, hmod, hf, hdiv, if_pos hrange]

theorem block?_encode (bs rest : Bytes) (h : bs.length < 2 ^ 64) :
    block? (Varint.encode bs.length ++ (bs ++ rest)) = some (bs, rest) := by
  simp [block?, Varint.decode_encode _ _ h, split?]

/-- A field is read back, and what stands behind it is left. -/
theorem item?_bytes (e : Entry) (rest : Bytes) (h : e.Fits) :
    item? (e.bytes ++ rest) = some (.entry e, rest) := by
  obtain ⟨tag, value⟩ := e
  obtain ⟨ht, hv⟩ := h
  cases value with
  | varint n =>
    have hkey := key?_encode tag 0 .varint (Varint.encode n ++ rest) ht (by omega) rfl
    rw [Nat.add_zero] at hkey
    simp [item?, Entry.bytes, hkey, Varint.decode_encode n rest hv]
  | block bs =>
    have hkey := key?_encode tag 2 .block (Varint.encode bs.length ++ (bs ++ rest)) ht
      (by omega) rfl
    simp [item?, Entry.bytes, hkey, block?_encode bs rest hv]

theorem length_bytes_pos (e : Entry) : 0 < e.bytes.length := by
  obtain ⟨tag, value⟩ := e
  cases value with
  | varint n =>
    have := Varint.length_encode_pos (8 * tag)
    simp only [Entry.bytes, List.length_append]
    omega
  | block bs =>
    have := Varint.length_encode_pos (8 * tag + 2)
    simp only [Entry.bytes, List.length_append]
    omega

theorem length_block_lt_bytes (tag : Nat) (bs : Bytes) :
    bs.length < (Entry.bytes ⟨tag, .block bs⟩).length := by
  have := Varint.length_encode_pos (8 * tag + 2)
  simp only [Entry.bytes, List.length_append]
  omega

/-! ## Rows -/

@[simp] theorem entryBytes_nil : entryBytes [] = [] := rfl

@[simp] theorem entryBytes_cons (e : Entry) (es : List Entry) :
    entryBytes (e :: es) = e.bytes ++ entryBytes es := by
  simp [entryBytes]

theorem length_bytes_le_entryBytes {e : Entry} {es : List Entry} (h : e ∈ es) :
    e.bytes.length ≤ (entryBytes es).length := by
  induction es with
  | nil => simp at h
  | cons f es ih =>
    rw [entryBytes_cons, List.length_append]
    rcases List.mem_cons.mp h with rfl | h
    · omega
    · have := ih h
      omega

/-- A block is shorter than the row it stands in. -/
theorem length_block_lt_entryBytes {tag : Nat} {bs : Bytes} {es : List Entry}
    (h : ⟨tag, .block bs⟩ ∈ es) : bs.length < (entryBytes es).length :=
  Nat.lt_of_lt_of_le (length_block_lt_bytes tag bs) (length_bytes_le_entryBytes h)

/-- In a row of less than 2^64 bytes every block fits. -/
theorem fits_of_length {es : List Entry} (htag : ∀ e ∈ es, TagFits e.tag)
    (hvarint : ∀ e ∈ es, ∀ n, e.value = .varint n → n < 2 ^ 64)
    (h : (entryBytes es).length < 2 ^ 64) : ∀ e ∈ es, e.Fits := by
  intro e he
  refine ⟨htag e he, ?_⟩
  cases hv : e.value with
  | varint n => exact hvarint e he n hv
  | block bs =>
    have hmem : (⟨e.tag, .block bs⟩ : Entry) ∈ es := by rw [← hv]; exact he
    exact Nat.lt_trans (length_block_lt_entryBytes hmem) h

/-- Reading needs no more steps than there are fields. -/
theorem readItems_entryBytes (fuel : Nat) (es : List Entry) (hfuel : es.length ≤ fuel)
    (h : ∀ e ∈ es, e.Fits) : readItems fuel (entryBytes es) = some (es.map .entry) := by
  induction es generalizing fuel with
  | nil => cases fuel <;> simp [readItems]
  | cons e es ih =>
    obtain ⟨fuel, rfl⟩ : ∃ n, fuel = n + 1 := ⟨fuel - 1, by simp at hfuel; omega⟩
    have hrest := ih fuel (by simpa using hfuel) fun f hf => h f (List.mem_cons_of_mem e hf)
    have hitem := item?_bytes e (entryBytes es) (h e List.mem_cons_self)
    obtain ⟨b, bs, hbytes⟩ : ∃ b bs, e.bytes ++ entryBytes es = b :: bs :=
      List.exists_cons_of_length_pos (by have := length_bytes_pos e; simp; omega)
    rw [entryBytes_cons, hbytes, readItems, ← hbytes, hitem]
    simp [hrest]

theorem length_le_entryBytes (es : List Entry) : es.length ≤ (entryBytes es).length := by
  induction es with
  | nil => simp
  | cons e es ih =>
    have := length_bytes_pos e
    simp only [entryBytes_cons, List.length_cons, List.length_append]
    omega

/-- A row of fields is read back whole. -/
theorem items?_entryBytes (es : List Entry) (h : ∀ e ∈ es, e.Fits) :
    items? (entryBytes es) = some (es.map .entry) :=
  readItems_entryBytes _ es (length_le_entryBytes es) h

end NameService.Wire
