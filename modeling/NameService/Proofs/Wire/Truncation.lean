import NameService.Proofs.Wire.Layout

/-
  What is read of a row of fields that is cut off.

  The format marks neither the end of a message nor the number of its fields. A cut
  inside a field is noticed, since the key and the length of the field say how far it
  goes; a cut between two fields leaves a message of fewer fields. What is proved:
    1. `extends_item?` — what is read from bytes is read from them with more bytes
       behind, and these are left (`Extends`). This holds of every reader, and is put
       together as the readers are.
    2. `items?_of_cut` — a row that is cut off holds the first few of its fields, if
       it is read at all; `Message.row_of_cut` — so does a message.
    3. `Layout.rest_of_step`, `Layout.head_of_step` — an item changes one field only.
-/

namespace NameService.Wire

/-! ## More bytes behind -/

/-- What one reader makes of bytes the other makes of them with more bytes behind, and
leaves these. The two differ at most in their fuel. -/
def Extends {α : Type} (read read' : Bytes → Option (α × Bytes)) : Prop :=
  ∀ bs a rest, read bs = some (a, rest) → ∀ more, read' (bs ++ more) = some (a, rest ++ more)

namespace Extends

variable {α β : Type} {read read' : Bytes → Option (α × Bytes)}

theorem pure (a : α) : Extends (fun bs => some (a, bs)) fun bs => some (a, bs) := by
  intro bs b rest h more
  obtain ⟨rfl, rfl⟩ := Prod.mk.inj (Option.some.inj h)
  rfl

theorem none : Extends (fun _ => Option.none) read' := nofun

theorem bind {next next' : α × Bytes → Option (β × Bytes)} (h : Extends read read')
    (hnext : ∀ a, Extends (fun bs => next (a, bs)) fun bs => next' (a, bs)) :
    Extends (fun bs => read bs >>= next) fun bs => read' bs >>= next' := by
  intro bs b rest hread more
  obtain ⟨⟨a, others⟩, ha, hb⟩ := Option.bind_eq_some_iff.mp hread
  exact Option.bind_eq_some_iff.mpr ⟨_, h _ _ _ ha more, hnext a _ _ _ hb more⟩

/-- A step that reads nothing. -/
theorem step {o : Option β} {next next' : β → Bytes → Option (α × Bytes)}
    (hnext : ∀ b, Extends (next b) (next' b)) :
    Extends (fun bs => o >>= fun b => next b bs) fun bs => o >>= fun b => next' b bs := by
  intro bs a rest hread more
  obtain ⟨b, hb, ha⟩ := Option.bind_eq_some_iff.mp hread
  exact Option.bind_eq_some_iff.mpr ⟨b, hb, hnext b _ _ _ ha more⟩

theorem guard {p : Prop} [Decidable p] (h : Extends read read') :
    Extends (fun bs => if p then read bs else Option.none)
      fun bs => if p then read' bs else Option.none := by
  split
  · exact h
  · exact none

end Extends

theorem Varint.extends_readGroups (n : Nat) : Extends (readGroups n) (readGroups n) := by
  induction n with
  | zero => nofun
  | succ n ih =>
    intro bs v rest h more
    cases bs with
    | nil => cases h
    | cons b bs =>
      rw [List.cons_append, readGroups]
      rw [readGroups] at h
      split at h
      · next hlast =>
        rw [if_pos hlast]
        split at h
        · cases h
        · next hroom =>
          obtain ⟨rfl, rfl⟩ := Prod.mk.inj (Option.some.inj h)
          rw [if_neg hroom]
      · next hlast =>
        rw [if_neg hlast]
        split at h
        · cases h
        · next w others hgroups =>
          obtain ⟨rfl, rfl⟩ := Prod.mk.inj (Option.some.inj h)
          rw [ih _ _ _ hgroups]

theorem Varint.extends_decode : Extends decode decode :=
  extends_readGroups 10

theorem extends_key? : Extends key? key? :=
  Varint.extends_decode.bind fun _ => .step fun _ => .guard (.pure _)

theorem extends_split? (n : Nat) : Extends (split? n) (split? n) := by
  intro bs block rest h more
  rw [split?] at h
  split at h
  · next hle =>
    obtain ⟨rfl, rfl⟩ := Prod.mk.inj (Option.some.inj h)
    rw [split?, if_pos (by rw [List.length_append]; omega), List.take_append_of_le_length hle,
      List.drop_append_of_le_length hle]
  · cases h

theorem extends_block? : Extends block? block? :=
  Varint.extends_decode.bind extends_split?

/-- Fuel that is enough for bytes is enough for them with more bytes behind. -/
theorem extends_groupDepth? {fuel fuel' : Nat} (hfuel : fuel ≤ fuel') (tag : Nat) :
    Extends (groupDepth? fuel tag) (groupDepth? fuel' tag) := by
  induction fuel generalizing fuel' tag with
  | zero => nofun
  | succ fuel ih =>
    obtain ⟨fuel', rfl⟩ : ∃ n, fuel' = n + 1 := ⟨fuel' - 1, by omega⟩
    have hless : fuel ≤ fuel' := by omega
    refine extends_key?.bind fun ⟨itemTag, form⟩ => ?_
    cases form with
    | groupEnd => exact .guard (.pure _)
    | groupStart => exact (ih hless itemTag).bind fun _ => (ih hless tag).bind fun _ => .pure _
    | varint => exact Varint.extends_decode.bind fun _ => (ih hless tag).bind fun _ => .pure _
    | block => exact extends_block?.bind fun _ => (ih hless tag).bind fun _ => .pure _
    | fixed64 => exact (extends_split? 8).bind fun _ => (ih hless tag).bind fun _ => .pure _
    | fixed32 => exact (extends_split? 4).bind fun _ => (ih hless tag).bind fun _ => .pure _

theorem extends_item? : Extends item? item? := by
  refine extends_key?.bind fun ⟨tag, form⟩ => ?_
  cases form with
  | varint => exact Varint.extends_decode.bind fun _ => .pure _
  | block => exact extends_block?.bind fun _ => .pure _
  | fixed64 => exact (extends_split? 8).bind fun _ => .pure _
  | fixed32 => exact (extends_split? 4).bind fun _ => .pure _
  | groupStart =>
    have hgroup : Extends (fun bs => groupDepth? bs.length tag bs)
        fun bs => groupDepth? bs.length tag bs :=
      fun bs _ _ h more => extends_groupDepth? (by simp) tag bs _ _ h more
    exact hgroup.bind fun _ => .pure _
  | groupEnd => exact .none

/-! ## Cuts -/

/-- Of a field that is cut off nothing is read. -/
theorem item?_of_cut {e : Entry} (he : e.Fits) {cut : Bytes} (hcut : cut <+: e.bytes)
    (hne : cut ≠ e.bytes) : item? cut = none := by
  obtain ⟨more, hmore⟩ := hcut
  rw [Option.eq_none_iff_forall_ne_some]
  rintro ⟨item, rest⟩ hitem
  -- the same would be read of the whole field, with the rest of the field left over
  have hwhole := extends_item? cut item rest hitem more
  have hread := item?_bytes e [] he
  rw [List.append_nil, ← hmore, hwhole] at hread
  have hrest : rest ++ more = [] := (Prod.mk.inj (Option.some.inj hread)).2
  obtain rfl : more = [] := (List.append_eq_nil_iff.mp hrest).2
  exact hne (by rw [← hmore, List.append_nil])

theorem readItems_of_cut (fuel : Nat) {es : List Entry} (hfits : ∀ e ∈ es, e.Fits) {cut : Bytes}
    (hcut : cut <+: entryBytes es) (hne : cut ≠ entryBytes es) {items : List Item}
    (h : readItems fuel cut = some items) : ∃ k < es.length, items = (es.take k).map .entry := by
  induction es generalizing fuel cut items with
  | nil => exact absurd (List.prefix_nil.mp hcut) hne
  | cons e es ih =>
    have he : e.Fits := hfits e List.mem_cons_self
    have hes : ∀ f ∈ es, f.Fits := fun f hf => hfits f (List.mem_cons_of_mem e hf)
    rw [entryBytes_cons] at hcut hne
    cases hbytes : cut with
    | nil =>
      rw [hbytes, readItems] at h
      exact ⟨0, Nat.succ_pos _, (Option.some.inj h).symm⟩
    | cons b bs =>
      rw [hbytes] at h
      cases fuel with
      | zero => cases h
      | succ fuel =>
        simp only [readItems, Option.bind_eq_bind, Option.bind_eq_some_iff] at h
        obtain ⟨⟨item, rest⟩, hitem, others, hothers, hitems⟩ := h
        rw [← hbytes] at hitem
        by_cases hwhole : e.bytes <+: cut
        · -- the cut is behind the first field
          obtain ⟨cut', rfl⟩ := hwhole
          rw [item?_bytes e cut' he] at hitem
          obtain ⟨rfl, rfl⟩ := Prod.mk.inj (Option.some.inj hitem)
          obtain ⟨k, hk, rfl⟩ := ih fuel hes ((List.prefix_append_right_inj _).mp hcut)
            (fun heq => hne (by rw [heq])) hothers
          exact ⟨k + 1, Nat.succ_lt_succ hk, (Option.some.inj hitems).symm⟩
        · -- the cut is inside the first field
          have hinside : cut <+: e.bytes :=
            (List.prefix_or_prefix_of_prefix hcut (List.prefix_append _ _)).resolve_right hwhole
          rw [item?_of_cut he hinside fun heq => hwhole (heq ▸ List.prefix_refl _)] at hitem
          cases hitem

/-- A row that is cut off holds the first few of its fields, if it is read at all. -/
theorem items?_of_cut {es : List Entry} (hfits : ∀ e ∈ es, e.Fits) {cut : Bytes}
    (hcut : cut <+: entryBytes es) (hne : cut ≠ entryBytes es) {items : List Item}
    (h : items? cut = some items) : ∃ k < es.length, items = (es.take k).map .entry :=
  readItems_of_cut _ hfits hcut hne h

/-- What is read of a message that is cut off is read of the first few of its fields. -/
theorem Message.row_of_cut {α : Type} [Message α] [Lawful α] {m m' : α}
    (hlength : (encode m).length < 2 ^ 64) {cut : Bytes} (hcut : cut <+: encode m)
    (hne : cut ≠ encode m) (h : decode? cut = some m') :
    ∃ k < (entries m).length, ∃ row,
      (((entries m).take k).map Item.entry).foldlM
          (fun row item => (layout (α := α)).step maxLevels item row) (toRow (empty : α)) =
        some row ∧ ofRow row = m' := by
  simp only [decode?, merge, Option.bind_eq_bind, Option.bind_eq_some_iff] at h
  obtain ⟨items, hitems, row, hrow, hm'⟩ := h
  obtain ⟨k, hk, rfl⟩ := items?_of_cut (entries_fit m hlength) hcut hne hitems
  exact ⟨k, hk, row, hrow, Option.some.inj hm'⟩

/-! ## Single fields -/

namespace Layout

variable {β R : Type} {f : Field β} {rest : Layout R} {levels : Nat} {item : Item} {v v' : β}
  {vs vs' : R}

/-- An item of the first field leaves those behind it alone. -/
theorem rest_of_step (h : (field f rest).step levels item (v, vs) = some (v', vs')) :
    vs' = vs ∨ rest.step levels item vs = some vs' := by
  simp only [step] at h
  split at h
  · cases item with
    | entry e =>
      obtain ⟨w, -, heq⟩ := Option.map_eq_some_iff.mp h
      exact .inl (Prod.mk.inj heq).2.symm
    | foreign tag depth => cases h
  · obtain ⟨ws, hws, heq⟩ := Option.map_eq_some_iff.mp h
    obtain ⟨-, rfl⟩ := Prod.mk.inj heq
    exact .inr hws

/-- An item of another field leaves the first one alone. -/
theorem head_of_step (htag : item.tag ∉ f.tags)
    (h : (field f rest).step levels item (v, vs) = some (v', vs')) : v' = v := by
  simp only [step, if_neg htag] at h
  obtain ⟨ws, -, heq⟩ := Option.map_eq_some_iff.mp h
  exact (Prod.mk.inj heq).1.symm

end Layout

/-- A value of a union is written as one field. -/
theorem Field.exists_union_write {σ : Type} {cases : List (Case σ)} [h : Case.Cover cases]
    (v : σ) : ∃ e, (union cases).write (some v) = [e] := by
  obtain ⟨c, hfilter, bs, hbs, -⟩ := h.exists_case v
  exact ⟨_, union_write_some hfilter hbs⟩

end NameService.Wire
