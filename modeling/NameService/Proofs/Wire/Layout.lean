import NameService.Proofs.Wire.Framing
import NameService.Wire.Message

/-
  Messages are read back as they were written, for every lawful layout.

  The law is stated part by part, as the layouts are put together:
    1. `Scalar.Lawful`, `Field.Lawful`, `Case.Reads` — one scalar, one field,
       one case of a union reads back what it writes. A field that holds
       messages needs more levels of nesting than they do, so the law carries
       a `depth`.
    2. `Layout.Lawful` — every field of a row is lawful. As long as no tag
       occurs twice, the fields do not disturb each other
       (`Layout.read_write`).
    3. `Message.Lawful` — a message type with a lawful layout, whose values
       are its rows. `Message.merge_encode` is the round trip at any level that
       leaves room for the depth, and `Message.decode?_encode` at the top.

  The instances for the message types of the schema need nothing but the
  descriptions of their fields.
-/

namespace NameService.Wire

/-! ## Scalars -/

/-- A scalar that reads back what it writes. -/
class Scalar.Lawful {β : Type} (s : Scalar β) : Prop where
  fits : ∀ v n, s.toValue v = .varint n → n < 2 ^ 64
  ofValue?_toValue : ∀ v, s.ofValue? (s.toValue v) = some v

namespace Scalar

instance : int64.Lawful where
  fits v n h := by
    obtain rfl : v.toUInt64.toNat = n := by simpa [int64] using h
    exact v.toUInt64.toNat_lt
  ofValue?_toValue v := by
    simp only [int64, UInt64.ofNat_toNat, Int64.toInt64_toUInt64]

theorem toInt32_low_half (w : UInt64) : w.toUInt32.toInt32 = w.toInt64.toInt32 := by
  apply Int32.toBitVec_inj.mp
  simp [BitVec.signExtend_eq_setWidth_of_le]

/-- Negative integers are written in 64 bits, of which the low half is read. -/
instance : int32.Lawful where
  fits v n h := by
    obtain rfl : v.toInt64.toUInt64.toNat = n := by simpa [int32] using h
    exact v.toInt64.toUInt64.toNat_lt
  ofValue?_toValue v := by
    simp only [int32, UInt32.ofNat_uInt64ToNat, toInt32_low_half, Int64.toInt64_toUInt64,
      Int32.toInt32_toInt64]

instance : uint32.Lawful where
  fits v n h := by
    obtain rfl : v.toNat = n := by simpa [uint32] using h
    exact Nat.lt_trans v.toNat_lt (by decide)
  ofValue?_toValue v := by simp [uint32]

instance : bool.Lawful where
  fits v n h := by
    obtain rfl : v.toNat = n := by simpa [bool] using h
    cases v <;> decide
  ofValue?_toValue v := by cases v <;> rfl

instance : text.Lawful where
  fits v n h := by simp [text] at h
  ofValue?_toValue v := by simp [text]

instance : bytes.Lawful where
  fits v n h := by simp [bytes] at h
  ofValue?_toValue v := rfl

end Scalar

/-! ## Fields and rows -/

/-- A field that reads back what it writes, if at least `depth` levels of
nesting are left. -/
class Field.Lawful {β : Type} (f : Field β) where
  depth : Nat
  tag_mem : ∀ v, ∀ e ∈ f.write v, e.tag ∈ f.tags
  varint_fits : ∀ v, ∀ e ∈ f.write v, ∀ n, e.value = .varint n → n < 2 ^ 64
  read_write : ∀ levels v, depth ≤ levels → (∀ e ∈ f.write v, e.value.Fits) →
    (f.write v).foldlM (fun v e => f.read levels e v) f.absent = some v

/-- A row of lawful fields. -/
class Layout.Lawful {R : Type} (l : Layout R) where
  depth : Nat
  tag_mem : ∀ row, ∀ e ∈ l.write row, e.tag ∈ l.tags
  varint_fits : ∀ row, ∀ e ∈ l.write row, ∀ n, e.value = .varint n → n < 2 ^ 64
  read_write : l.tags.Nodup → ∀ levels row, depth ≤ levels →
    (∀ e ∈ l.write row, e.value.Fits) →
    (l.write row).foldlM (fun row e => l.step levels (.entry e) row) l.absent = some row

namespace Layout

instance : done.Lawful where
  depth := 0
  tag_mem := by simp [write]
  varint_fits := by simp [write]
  read_write := by simp [write, absent]

section

variable {β R : Type} {f : Field β} {rest : Layout R} {levels : Nat}

/-- Entries with tags of the first field leave the others alone. -/
theorem foldlM_step_head (es : List Entry) (htag : ∀ e ∈ es, e.tag ∈ f.tags) (v : β) (vs : R) :
    es.foldlM (fun row e => (field f rest).step levels (.entry e) row) (v, vs) =
      (es.foldlM (fun v e => f.read levels e v) v).map fun v => (v, vs) := by
  induction es generalizing v with
  | nil => rfl
  | cons e es ih =>
    have he : (Item.entry e).tag ∈ f.tags := htag e List.mem_cons_self
    rw [List.foldlM_cons, List.foldlM_cons]
    simp only [step, if_pos he]
    cases f.read levels e v with
    | none => rfl
    | some v => exact ih (fun e he => htag e (List.mem_cons_of_mem _ he)) v

/-- Entries without tags of the first field leave it alone. -/
theorem foldlM_step_tail (es : List Entry) (htag : ∀ e ∈ es, e.tag ∉ f.tags) (v : β) (vs : R) :
    es.foldlM (fun row e => (field f rest).step levels (.entry e) row) (v, vs) =
      (es.foldlM (fun vs e => rest.step levels (.entry e) vs) vs).map fun vs => (v, vs) := by
  induction es generalizing vs with
  | nil => rfl
  | cons e es ih =>
    have he : (Item.entry e).tag ∉ f.tags := htag e List.mem_cons_self
    rw [List.foldlM_cons, List.foldlM_cons]
    simp only [step, if_neg he]
    cases rest.step levels (.entry e) vs with
    | none => rfl
    | some vs => exact ih (fun e he => htag e (List.mem_cons_of_mem _ he)) vs

end

instance {β R : Type} (f : Field β) (rest : Layout R) [hf : f.Lawful] [hr : rest.Lawful] :
    (field f rest).Lawful where
  depth := max hf.depth hr.depth
  tag_mem := by
    rintro ⟨v, vs⟩ e he
    rcases List.mem_append.mp he with he | he
    · exact List.mem_append_left _ (hf.tag_mem v e he)
    · exact List.mem_append_right _ (hr.tag_mem vs e he)
  varint_fits := by
    rintro ⟨v, vs⟩ e he
    rcases List.mem_append.mp he with he | he
    · exact hf.varint_fits v e he
    · exact hr.varint_fits vs e he
  read_write := by
    rintro hnodup levels ⟨v, vs⟩ hlevels hfits
    obtain ⟨_, hnodup, hdisjoint⟩ := List.nodup_append.mp hnodup
    have hhead := hf.read_write levels v (by omega)
      fun e he => hfits e (List.mem_append_left _ he)
    have htail := hr.read_write hnodup levels vs (by omega)
      fun e he => hfits e (List.mem_append_right _ he)
    -- no tag occurs twice, so the rest has none of the first field
    have hforeign : ∀ e ∈ rest.write vs, e.tag ∉ f.tags := fun e he h =>
      hdisjoint e.tag h e.tag (hr.tag_mem vs e he) rfl
    simp only [write, absent, List.foldlM_append]
    rw [foldlM_step_head _ (hf.tag_mem v), hhead]
    simp only [Option.map_some, Option.bind_eq_bind, Option.bind_some]
    rw [foldlM_step_tail _ hforeign, htail]
    rfl

end Layout

/-! ## Messages -/

/-- A message type whose values are its rows, each read back as it is written. -/
class Message.Lawful (α : Type) [Message α] where
  fields : (Message.layout (α := α)).Lawful := by
    show (Layout.field _ _).Lawful
    infer_instance
  ofRow_toRow : ∀ m : α, Message.ofRow (Message.toRow m) = m := by intro m; rfl
  toRow_ofRow : ∀ row, Message.toRow (Message.ofRow row : α) = row := by intro row; rfl
  tags_nodup : (Message.layout (α := α)).tags.Nodup := by decide
  tags_fit : ∀ t ∈ (Message.layout (α := α)).tags, TagFits t := by decide

namespace Message

variable {α : Type} [Message α]

/-- The levels of nesting below a message of a type. -/
def depth (α : Type) [Message α] [h : Lawful α] : Nat :=
  h.fields.depth

variable [h : Lawful α]

/-- Every field of a message of less than 2^64 bytes can be written. -/
theorem entries_fit (m : α) (hm : (encode m).length < 2 ^ 64) : ∀ e ∈ entries m, e.Fits :=
  fits_of_length (fun e he => h.tags_fit _ (h.fields.tag_mem _ e he))
    (h.fields.varint_fits _) hm

/-- A message is read back at every level that leaves room for its depth. -/
theorem merge_encode (levels : Nat) (m : α) (hlevels : depth α ≤ levels)
    (hm : (encode m).length < 2 ^ 64) : merge levels (encode m) (empty : α) = some m := by
  have hfits := entries_fit m hm
  have hrow := h.fields.read_write h.tags_nodup levels (toRow m) hlevels
    fun e he => (hfits e he).value
  have hitems : items? (encode m) = some ((entries m).map .entry) :=
    items?_entryBytes _ hfits
  simp only [merge, hitems, empty, h.toRow_ofRow, Option.bind_eq_bind, Option.bind_some,
    List.foldlM_map]
  rw [entries, hrow, Option.bind_some, h.ofRow_toRow]

theorem mergeEmbedded_encode (levels : Nat) (m : α) (hlevels : depth α < levels)
    (hm : (encode m).length < 2 ^ 64) :
    mergeEmbedded levels (.block (encode m)) (empty : α) = some m := by
  obtain ⟨levels, rfl⟩ : ∃ n, levels = n + 1 := ⟨levels - 1, by omega⟩
  exact merge_encode levels m (by omega) hm

/-- A message is read back from its bytes. -/
theorem decode?_encode (m : α) (hdepth : depth α ≤ maxLevels) (hm : (encode m).length < 2 ^ 64) :
    decode? (encode m) = some m :=
  merge_encode maxLevels m hdepth hm

/-- Messages that are written alike are equal. -/
theorem encode_inj {m n : α} (hdepth : depth α ≤ maxLevels) (hm : (encode m).length < 2 ^ 64)
    (h : encode m = encode n) : m = n := by
  have hread := decode?_encode n hdepth (h ▸ hm)
  rw [← h, decode?_encode m hdepth hm] at hread
  exact Option.some.inj hread

omit h in
/-- The bytes in a field of a message are fewer than those of the message. -/
theorem length_block_lt_encode {m : α} {tag : Nat} {bs : Bytes}
    (hmem : ⟨tag, .block bs⟩ ∈ entries m) : bs.length < (encode m).length :=
  length_block_lt_entryBytes hmem

end Message

/-! ## Kinds of fields -/

namespace Field

instance {β : Type} [DecidableEq β] (tag : Nat) (s : Scalar β) [hs : s.Lawful] :
    (scalar tag s).Lawful where
  depth := 0
  tag_mem v e he := by
    simp only [scalar] at he ⊢
    split at he <;> simp_all
  varint_fits v e he n hn := by
    simp only [scalar] at he
    split at he
    · simp at he
    · obtain rfl := List.mem_singleton.mp he
      exact hs.fits v n hn
  read_write levels v _ _ := by
    simp only [scalar]
    split
    · next hdefault => simp [hdefault]
    · simp [hs.ofValue?_toValue]

instance {α : Type} [Message α] [h : Message.Lawful α] (tag : Nat) :
    (message tag : Field (Option α)).Lawful where
  depth := Message.depth α + 1
  tag_mem v e he := by cases v <;> simp_all [message]
  varint_fits v e he n hn := by cases v <;> simp_all [message]
  read_write levels v hlevels hfits := by
    cases v with
    | none => rfl
    | some m =>
      have hm : (Message.encode m).length < 2 ^ 64 :=
        hfits ⟨tag, .block (Message.encode m)⟩ (by simp [message])
      simp [message, Message.mergeEmbedded_encode levels m hlevels hm]

/-- A repeated field appends its entries to what has been read before. -/
theorem foldlM_messages {α : Type} [Message α] [Message.Lawful α] (tag levels : Nat)
    (hlevels : Message.depth α < levels) (ms before : List α)
    (hfits : ∀ m ∈ ms, (Message.encode m).length < 2 ^ 64) :
    ((messages tag : Field (List α)).write ms).foldlM
      (fun v e => (messages tag : Field (List α)).read levels e v) before =
        some (before ++ ms) := by
  induction ms generalizing before with
  | nil => simp [messages]
  | cons m ms ih =>
    have hm := Message.mergeEmbedded_encode levels m hlevels (hfits m List.mem_cons_self)
    have hrest := ih (before ++ [m]) fun m hm => hfits m (List.mem_cons_of_mem _ hm)
    simp only [messages, List.map_cons, List.foldlM_cons, hm, Option.map_some,
      Option.bind_eq_bind, Option.bind_some] at hrest ⊢
    rw [hrest, List.append_assoc, List.singleton_append]

instance {α : Type} [Message α] [h : Message.Lawful α] (tag : Nat) :
    (messages tag : Field (List α)).Lawful where
  depth := Message.depth α + 1
  tag_mem ms e he := by
    obtain ⟨m, _, rfl⟩ := List.mem_map.mp he
    simp [messages]
  varint_fits ms e he n hn := by
    obtain ⟨m, _, rfl⟩ := List.mem_map.mp he
    simp at hn
  read_write levels ms hlevels hfits :=
    foldlM_messages tag levels hlevels ms [] fun _ hm =>
      hfits _ (List.mem_map_of_mem hm)

theorem foldlM_blocks (tag levels : Nat) (bss before : List Bytes) :
    ((blocks tag).write bss).foldlM (fun v e => (blocks tag).read levels e v) before =
      some (before ++ bss) := by
  induction bss generalizing before with
  | nil => simp [blocks]
  | cons bs bss ih =>
    have hrest := ih (before ++ [bs])
    simp only [blocks, List.map_cons, List.foldlM_cons, Option.bind_eq_bind,
      Option.bind_some] at hrest ⊢
    rw [hrest, List.append_assoc, List.singleton_append]

instance (tag : Nat) : (blocks tag).Lawful where
  depth := 0
  tag_mem bss e he := by
    obtain ⟨bs, _, rfl⟩ := List.mem_map.mp he
    simp [blocks]
  varint_fits bss e he n hn := by
    obtain ⟨bs, _, rfl⟩ := List.mem_map.mp he
    simp at hn
  read_write levels bss _ _ := foldlM_blocks tag levels bss []

instance (tag : Nat) : (block tag).Lawful where
  depth := 0
  tag_mem v e he := by cases v <;> simp_all [block]
  varint_fits v e he n hn := by cases v <;> simp_all [block]
  read_write levels v _ _ := by cases v <;> rfl

end Field

/-! ## Unions -/

/-- A case that writes the value `v` of a union, and reads it back with at least
`depth` levels of nesting left. -/
def Case.Reads {σ : Type} (c : Case σ) (depth : Nat) (v : σ) : Prop :=
  ∃ bs, c.write v = some bs ∧ ∀ levels, depth ≤ levels → bs.length < 2 ^ 64 →
    c.read levels (.block bs) none = some v

theorem Case.message_reads {σ α : Type} [Message α] [Message.Lawful α] {tag depth : Nat}
    {inject : α → σ} {project : σ → Option α} {m : α} (hproject : project (inject m) = some m)
    (hdepth : Message.depth α < depth) :
    (Case.message tag inject project).Reads depth (inject m) := by
  refine ⟨Message.encode m, by simp [message, hproject], ?_⟩
  intro levels hlevels hm
  simp [message, Message.mergeEmbedded_encode levels m (by omega) hm]

/-- The cases of a union: each value is written by exactly one, which reads it
back, and the tags tell the cases apart. -/
class Case.Cover {σ : Type} (cases : List (Case σ)) where
  depth : Nat
  tags_nodup : (cases.map Case.tag).Nodup
  exists_case : ∀ v, ∃ c, cases.filter (fun c => (c.write v).isSome) = [c] ∧ c.Reads depth v

namespace Field

variable {σ : Type} {cases : List (Case σ)}

theorem union_write_some {v : σ} {c : Case σ} {bs : Bytes}
    (hfilter : cases.filter (fun c => (c.write v).isSome) = [c]) (hbs : c.write v = some bs) :
    (union cases).write (some v) = [⟨c.tag, .block bs⟩] := by
  have hmap : (cases.filterMap fun c => (c.write v).map fun bs => Entry.mk c.tag (.block bs)) =
      (cases.filter fun c => (c.write v).isSome).filterMap
        fun c => (c.write v).map fun bs => Entry.mk c.tag (.block bs) := by
    rw [List.filterMap_filter]
    congr 1
    funext c
    cases c.write v <;> rfl
  simp only [union]
  rw [hmap, hfilter]
  simp [hbs]

/-- A case is found by its tag. -/
theorem find?_tag {c : Case σ} (hnodup : (cases.map Case.tag).Nodup) (hc : c ∈ cases) :
    cases.find? (fun d => d.tag == c.tag) = some c := by
  induction cases with
  | nil => simp at hc
  | cons d cases ih =>
    rw [List.map_cons, List.nodup_cons] at hnodup
    rcases List.mem_cons.mp hc with rfl | hc
    · simp
    · have hne : d.tag ≠ c.tag := fun heq => hnodup.1 (heq ▸ List.mem_map_of_mem hc)
      rw [List.find?_cons_of_neg (by simpa using hne), ih hnodup.2 hc]

instance (cases : List (Case σ)) [h : Case.Cover cases] : (union cases).Lawful where
  depth := h.depth
  tag_mem v e he := by
    cases v with
    | none => simp [union] at he
    | some v =>
      obtain ⟨c, hc, hce⟩ := List.mem_filterMap.mp he
      obtain ⟨bs, _, rfl⟩ := Option.map_eq_some_iff.mp hce
      exact List.mem_map_of_mem hc
  varint_fits v e he n hn := by
    cases v with
    | none => simp [union] at he
    | some v =>
      obtain ⟨c, _, hce⟩ := List.mem_filterMap.mp he
      obtain ⟨bs, _, rfl⟩ := Option.map_eq_some_iff.mp hce
      simp at hn
  read_write levels v hlevels hfits := by
    cases v with
    | none => rfl
    | some v =>
      obtain ⟨c, hfilter, bs, hbs, hread⟩ := h.exists_case v
      have hc : c ∈ cases := (List.mem_filter.mp (hfilter ▸ List.mem_singleton_self c)).1
      rw [union_write_some hfilter hbs] at hfits ⊢
      have hm : bs.length < 2 ^ 64 := hfits _ (List.mem_singleton_self _)
      simp [union, find?_tag h.tags_nodup hc, hread levels hlevels hm]

end Field

end NameService.Wire
