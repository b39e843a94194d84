/-
  Maps from texts to values, kept as a list in strictly increasing order of the
  keys, so that a map has one representation and equality of maps is equality
  of their entries.

  Texts are ordered by code points, which is also the order of their UTF-8
  bytes.
-/

namespace NameService

structure SortedMap (α : Type) where
  entries : List (String × α)
  sorted : entries.Pairwise fun a b => a.1 < b.1
  deriving DecidableEq, Repr

namespace SortedMap

variable {α : Type}

/-- Puts an entry into a sorted list; an entry of the same key is replaced. -/
def insertEntry (key : String) (value : α) : List (String × α) → List (String × α)
  | [] => [(key, value)]
  | (k, v) :: rest =>
    if key < k then (key, value) :: (k, v) :: rest
    else if key = k then (key, value) :: rest
    else (k, v) :: insertEntry key value rest

theorem mem_insertEntry {key : String} {value : α} {entries : List (String × α)}
    {e : String × α} (h : e ∈ insertEntry key value entries) : e = (key, value) ∨ e ∈ entries := by
  induction entries with
  | nil => simpa [insertEntry] using h
  | cons head rest ih =>
    obtain ⟨k, v⟩ := head
    unfold insertEntry at h
    split at h
    · simpa using h
    · split at h
      · simp at h
        rcases h with h | h
        · exact .inl h
        · exact .inr (by simp [h])
      · simp at h
        rcases h with h | h
        · exact .inr (by simp [h])
        · rcases ih h with h | h
          · exact .inl h
          · exact .inr (by simp [h])

theorem sorted_insertEntry (key : String) (value : α) {entries : List (String × α)}
    (h : entries.Pairwise fun a b => a.1 < b.1) :
    (insertEntry key value entries).Pairwise fun a b => a.1 < b.1 := by
  induction entries with
  | nil => simp [insertEntry]
  | cons head rest ih =>
    obtain ⟨k, v⟩ := head
    rw [List.pairwise_cons] at h
    unfold insertEntry
    split
    · next hlt =>
      rw [List.pairwise_cons]
      refine ⟨?_, List.pairwise_cons.mpr h⟩
      intro e he
      rcases List.mem_cons.mp he with rfl | he
      · exact hlt
      · exact String.lt_trans hlt (h.1 e he)
    · next hnot =>
      split
      · next heq =>
        subst heq
        exact List.pairwise_cons.mpr h
      · next hne =>
        have hgt : k < key := by
          by_cases hlt : k < key
          · exact hlt
          · exact absurd (String.le_antisymm (String.not_lt.mp hlt) (String.not_lt.mp hnot)) hne
        rw [List.pairwise_cons]
        refine ⟨?_, ih h.2⟩
        intro e he
        rcases mem_insertEntry he with rfl | he
        · exact hgt
        · exact h.1 e he

def empty : SortedMap α := ⟨[], .nil⟩

/-- The map with one entry added, or replaced. -/
def insert (m : SortedMap α) (key : String) (value : α) : SortedMap α :=
  ⟨insertEntry key value m.entries, sorted_insertEntry key value m.sorted⟩

/-- The map of a list of entries; of several entries of one key the last counts. -/
def ofList (entries : List (String × α)) : SortedMap α :=
  entries.foldl (fun m e => m.insert e.1 e.2) empty

end SortedMap

end NameService
