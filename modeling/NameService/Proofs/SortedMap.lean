import Mathlib.Data.List.Dedup
import Mathlib.Data.List.Induction
import NameService.SortedMap

/-
  Maps made of lists of entries.

  What is proved:
    1. `mem_ofList` — the map of a list holds, for each key of the list, the
       last entry of that key, and nothing else.
    2. `entries_ofList` — a list that is sorted already is the list of entries
       of its map, so that a map is the map of its entries (`ofList_entries`).
    3. `mem_ofList_newKeys` — where the keys of a map are replaced and several become
       one, the largest of them counts.
    4. `length_ofList` — a map has as many entries as its list has different keys.
    5. `lastOf_eq_of_ofList_eq` — lists of records that give one map have the same
       last record of every key.
-/

namespace NameService.SortedMap

variable {α : Type}

theorem ext_entries {m n : SortedMap α} (h : m.entries = n.entries) : m = n := by
  cases m
  cases n
  congr

/-! ## One entry more -/

/-- A sorted list holds the new entry and the old ones of other keys. -/
theorem mem_insertEntry_iff (key : String) (value : α) {entries : List (String × α)}
    (h : entries.Pairwise fun a b => a.1 < b.1) {e : String × α} :
    e ∈ insertEntry key value entries ↔ e = (key, value) ∨ e ∈ entries ∧ e.1 ≠ key := by
  induction entries with
  | nil => simp [insertEntry]
  | cons head rest ih =>
    obtain ⟨k, v⟩ := head
    obtain ⟨hhead, hrest⟩ := List.pairwise_cons.mp h
    unfold insertEntry
    split
    · next hlt =>
      -- every old key is above the new one
      have hold : ∀ f ∈ (k, v) :: rest, f.1 ≠ key := by
        intro f hf heq
        rcases List.mem_cons.mp hf with rfl | hf
        · exact String.lt_irrefl _ (heq ▸ hlt)
        · exact String.lt_irrefl _ (heq ▸ String.lt_trans hlt (hhead f hf))
      rw [List.mem_cons]
      exact or_congr Iff.rfl ⟨fun he => ⟨he, hold e he⟩, And.left⟩
    · split
      · next heq =>
        subst heq
        have hold : ∀ f ∈ rest, f.1 ≠ key :=
          fun f hf heq => String.lt_irrefl _ (heq ▸ hhead f hf)
        rw [List.mem_cons, List.mem_cons]
        refine or_congr Iff.rfl ⟨fun he => ⟨.inr he, hold e he⟩, ?_⟩
        rintro ⟨rfl | he, hne⟩
        · exact absurd rfl hne
        · exact he
      · next hne =>
        have hkv : (k, v).1 ≠ key := fun heq => hne heq.symm
        rw [List.mem_cons, List.mem_cons, ih hrest]
        constructor
        · rintro (rfl | rfl | ⟨he, hkey⟩)
          · exact .inr ⟨.inl rfl, hkv⟩
          · exact .inl rfl
          · exact .inr ⟨.inr he, hkey⟩
        · rintro (rfl | ⟨rfl | he, hkey⟩)
          · exact .inr (.inl rfl)
          · exact .inl rfl
          · exact .inr (.inr ⟨he, hkey⟩)

theorem mem_insert (m : SortedMap α) (key : String) (value : α) {e : String × α} :
    e ∈ (m.insert key value).entries ↔ e = (key, value) ∨ e ∈ m.entries ∧ e.1 ≠ key :=
  mem_insertEntry_iff key value m.sorted

/-- An entry above all others goes to the end. -/
theorem insertEntry_of_forall_lt (key : String) (value : α) {entries : List (String × α)}
    (h : ∀ e ∈ entries, e.1 < key) :
    insertEntry key value entries = entries ++ [(key, value)] := by
  induction entries with
  | nil => rfl
  | cons head rest ih =>
    obtain ⟨k, v⟩ := head
    have hlt : k < key := h (k, v) List.mem_cons_self
    have hnot : ¬ key < k := fun hgt => String.lt_irrefl k (String.lt_trans hlt hgt)
    have hne : key ≠ k := fun heq => String.lt_irrefl k (heq ▸ hlt)
    rw [insertEntry, if_neg hnot, if_neg hne, ih fun e he => h e (List.mem_cons_of_mem _ he)]
    rfl

/-! ## Lists -/

theorem ofList_append_singleton (entries : List (String × α)) (e : String × α) :
    ofList (entries ++ [e]) = (ofList entries).insert e.1 e.2 := by
  simp [ofList]

/-- Of several entries of one key the last one counts. -/
theorem mem_ofList {entries : List (String × α)} {e : String × α} :
    e ∈ (ofList entries).entries ↔
      ∃ before after, entries = before ++ e :: after ∧ ∀ f ∈ after, f.1 ≠ e.1 := by
  induction entries using List.reverseRecOn with
  | nil => simp [ofList, empty]
  | append_singleton entries last ih =>
    rw [ofList_append_singleton, mem_insert, ih]
    constructor
    · rintro (rfl | ⟨⟨before, after, rfl, hafter⟩, hne⟩)
      · exact ⟨entries, [], rfl, by simp⟩
      · refine ⟨before, after ++ [last], by simp, ?_⟩
        intro f hf
        rcases List.mem_append.mp hf with hf | hf
        · exact hafter f hf
        · obtain rfl := List.mem_singleton.mp hf
          exact hne.symm
    · rintro ⟨before, after, heq, hafter⟩
      rcases List.eq_nil_or_concat after with rfl | ⟨after, f, rfl⟩
      · left
        exact (List.append_inj_right' heq rfl |> List.singleton_inj.mp).symm
      · right
        rw [List.concat_eq_append] at heq hafter
        rw [← List.cons_append, ← List.append_assoc] at heq
        obtain rfl := List.append_inj_left' heq rfl
        obtain rfl := List.singleton_inj.mp (List.append_inj_right' heq rfl)
        exact ⟨⟨before, after, rfl, fun f hf => hafter f (List.mem_append_left _ hf)⟩,
          fun hkey => hafter last (by simp) hkey.symm⟩

/-- Whatever an entry of a map replaced, it is itself one of the list. -/
theorem mem_of_mem_ofList {entries : List (String × α)} {e : String × α}
    (h : e ∈ (ofList entries).entries) : e ∈ entries := by
  obtain ⟨before, after, rfl, -⟩ := mem_ofList.mp h
  exact List.mem_append_right before List.mem_cons_self

/-- A sorted list is the list of the entries of its map. -/
theorem entries_ofList {entries : List (String × α)}
    (h : entries.Pairwise fun a b => a.1 < b.1) : (ofList entries).entries = entries := by
  induction entries using List.reverseRecOn with
  | nil => rfl
  | append_singleton entries last ih =>
    obtain ⟨hbefore, -, hlast⟩ := List.pairwise_append.mp h
    have hentries := ih hbefore
    rw [ofList_append_singleton]
    show insertEntry last.1 last.2 (ofList entries).entries = entries ++ [last]
    rw [hentries]
    exact insertEntry_of_forall_lt _ _ fun e he => hlast e he last (List.mem_singleton_self _)

theorem ofList_entries (m : SortedMap α) : ofList m.entries = m :=
  ext_entries (entries_ofList m.sorted)

/-- Of the keys that become one key, the largest decides on the value. -/
theorem mem_ofList_newKeys (m : SortedMap α) (f : String → String) {key : String} {value : α} :
    (key, value) ∈ (ofList (m.entries.map fun e => (f e.1, e.2))).entries ↔
      ∃ e ∈ m.entries, f e.1 = key ∧ e.2 = value ∧ ∀ d ∈ m.entries, f d.1 = key → d.1 ≤ e.1 := by
  rw [mem_ofList]
  constructor
  · rintro ⟨before, after, hsplit, hafter⟩
    obtain ⟨before', tail, hentries, -, htail⟩ := List.map_eq_append_iff.mp hsplit
    obtain ⟨e, after', rfl, he, rfl⟩ := List.map_eq_cons_iff.mp htail
    obtain ⟨rfl, rfl⟩ := Prod.mk.inj he
    refine ⟨e, by simp [hentries], rfl, rfl, ?_⟩
    intro d hd hkey
    rw [hentries] at hd
    rcases List.mem_append.mp hd with hd | hd
    · have hsorted := m.sorted
      rw [hentries] at hsorted
      have hlt : d.1 < e.1 := (List.pairwise_append.mp hsorted).2.2 d hd e List.mem_cons_self
      exact String.not_lt.mp fun hgt => String.lt_irrefl _ (String.lt_trans hlt hgt)
    · rcases List.mem_cons.mp hd with rfl | hd
      · exact String.le_refl _
      · exact absurd hkey (hafter _ (List.mem_map_of_mem hd))
  · rintro ⟨e, he, rfl, rfl, hlargest⟩
    obtain ⟨before, after, hentries⟩ := List.append_of_mem he
    refine ⟨before.map _, after.map _, by rw [hentries, List.map_append, List.map_cons], ?_⟩
    intro g hg hkey
    obtain ⟨d, hd, rfl⟩ := List.mem_map.mp hg
    have hsorted := m.sorted
    rw [hentries] at hsorted
    have hlt : e.1 < d.1 :=
      (List.pairwise_cons.mp (List.pairwise_append.mp hsorted).2.1).1 d hd
    exact String.not_lt.mpr (hlargest d (by simp [hentries, hd]) hkey) hlt

/-! ## Keys -/

theorem nodup_keys (m : SortedMap α) : (m.entries.map Prod.fst).Nodup := by
  rw [List.Nodup, List.pairwise_map]
  refine m.sorted.imp ?_
  intro d e hlt hkey
  exact String.lt_irrefl _ (hkey ▸ hlt)

theorem mem_keys_insert (m : SortedMap α) (key : String) (value : α) {k : String} :
    k ∈ (m.insert key value).entries.map Prod.fst ↔ k = key ∨ k ∈ m.entries.map Prod.fst := by
  simp only [List.mem_map, mem_insert]
  constructor
  · intro h
    obtain ⟨e, rfl | ⟨he, -⟩, rfl⟩ := h
    · exact .inl rfl
    · exact .inr ⟨e, he, rfl⟩
  · intro h
    by_cases hkey : k = key
    · exact ⟨(key, value), .inl rfl, hkey.symm⟩
    · obtain ⟨e, he, rfl⟩ := h.resolve_left hkey
      exact ⟨e, .inr ⟨he, hkey⟩, rfl⟩

/-- No key of a list is lost in its map. -/
theorem mem_keys_ofList {entries : List (String × α)} {k : String} :
    k ∈ (ofList entries).entries.map Prod.fst ↔ k ∈ entries.map Prod.fst := by
  induction entries using List.reverseRecOn with
  | nil => rfl
  | append_singleton entries last ih =>
    rw [ofList_append_singleton, mem_keys_insert, ih, List.map_append, List.mem_append, or_comm,
      List.map_singleton, List.mem_singleton]

theorem length_ofList (entries : List (String × α)) :
    (ofList entries).entries.length = (entries.map Prod.fst).dedup.length := by
  have hperm : ((ofList entries).entries.map Prod.fst).Perm (entries.map Prod.fst).dedup := by
    apply (List.perm_ext_iff_of_nodup (nodup_keys _) (List.nodup_dedup _)).mpr
    intro k
    rw [mem_keys_ofList, List.mem_dedup]
  rw [← hperm.length_eq, List.length_map]

/-! ## Records behind the entries -/

section Records

variable {ρ κ : Type} [DecidableEq κ]

/-- The last record of a list that has a key. -/
def lastOf (key : ρ → κ) (k : κ) (records : List ρ) : Option ρ :=
  (records.filter fun r => key r = k).getLast?

theorem lastOf_eq_some {key : ρ → κ} {k : κ} {records : List ρ} {r : ρ} :
    lastOf key k records = some r ↔ ∃ before after, records = before ++ r :: after ∧
      key r = k ∧ ∀ q ∈ after, key q ≠ k := by
  rw [lastOf, List.getLast?_eq_some_iff]
  constructor
  · rintro ⟨kept, hkept⟩
    obtain ⟨before, after, hrecords, -, hafter⟩ := List.filter_eq_append_iff.mp hkept
    obtain ⟨skipped, rest, rfl, -, hr, hrest⟩ := List.filter_eq_cons_iff.mp hafter
    refine ⟨before ++ skipped, rest, by simp [hrecords], by simpa using hr, ?_⟩
    simpa using hrest
  · rintro ⟨before, after, rfl, hr, hafter⟩
    refine ⟨before.filter fun q => key q = k, ?_⟩
    have hnone : after.filter (fun q => key q = k) = [] := by simpa using hafter
    rw [List.filter_append, List.filter_cons_of_pos (by simpa using hr), hnone]

/-- Behind every entry of a map stands the last record of its key, if the entries of one key
are those of one text. -/
theorem exists_lastOf_of_mem_ofList {f : ρ → String × α} {key : ρ → κ} {records : List ρ}
    (hkey : ∀ q ∈ records, ∀ r ∈ records, key q = key r → (f q).1 = (f r).1) {e : String × α}
    (h : e ∈ (ofList (records.map f)).entries) :
    ∃ r ∈ records, lastOf key (key r) records = some r ∧ f r = e := by
  obtain ⟨front, back, hsplit, hback⟩ := mem_ofList.mp h
  obtain ⟨before, tail, hrecords, -, htail⟩ := List.map_eq_append_iff.mp hsplit
  obtain ⟨r, after, rfl, rfl, rfl⟩ := List.map_eq_cons_iff.mp htail
  have hr : r ∈ records := by simp [hrecords]
  refine ⟨r, hr, lastOf_eq_some.mpr ⟨before, after, hrecords, rfl, ?_⟩, rfl⟩
  intro q hq hsame
  exact hback _ (List.mem_map_of_mem hq) (hkey q (by simp [hrecords, hq]) r hr hsame)

/-- Two lists of records with the same entries, up to order and to entries that are
replaced, have the same last records: the entry of a record tells which one it is. -/
theorem lastOf_eq_of_ofList_eq {f : ρ → String × α} {key : ρ → κ} {valid : ρ → Prop}
    (hkey : ∀ q r, valid q → valid r → ((f q).1 = (f r).1 ↔ key q = key r))
    (hf : ∀ q r, valid q → valid r → f q = f r → q = r) {qs rs : List ρ}
    (hqs : ∀ q ∈ qs, valid q) (hrs : ∀ r ∈ rs, valid r)
    (h : ofList (qs.map f) = ofList (rs.map f)) (k : κ) :
    lastOf key k qs = lastOf key k rs := by
  -- one half suffices, since the lists can change places
  have hhalf : ∀ {qs rs : List ρ}, (∀ q ∈ qs, valid q) → (∀ r ∈ rs, valid r) →
      ofList (qs.map f) = ofList (rs.map f) → ∀ q, lastOf key k qs = some q →
        lastOf key k rs = some q := by
    intro qs rs hqs hrs h q hq
    obtain ⟨before, after, rfl, rfl, hafter⟩ := lastOf_eq_some.mp hq
    have hvalid : valid q := hqs q (by simp)
    have hmem : f q ∈ (ofList ((before ++ q :: after).map f)).entries := by
      refine mem_ofList.mpr ⟨before.map f, after.map f, by simp, ?_⟩
      intro e he heq
      obtain ⟨p, hp, rfl⟩ := List.mem_map.mp he
      exact hafter p hp ((hkey p q (hqs p (by simp [hp])) hvalid).mp heq)
    rw [h] at hmem
    have hkeys : ∀ p ∈ rs, ∀ r ∈ rs, key p = key r → (f p).1 = (f r).1 :=
      fun p hp r hr => (hkey p r (hrs p hp) (hrs r hr)).mpr
    obtain ⟨r, hr, hlast, hentry⟩ := exists_lastOf_of_mem_ofList hkeys hmem
    obtain rfl := hf r q (hrs r hr) hvalid hentry
    exact hlast
  apply Option.ext
  intro q
  exact ⟨hhalf hqs hrs h q, hhalf hrs hqs h.symm q⟩

end Records

end NameService.SortedMap
