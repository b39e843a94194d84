import NameService.Json.Fields
import NameService.Proofs.Numeral
import NameService.Proofs.Result
import NameService.Proofs.SortedMap

/-
  Readers of JSON values give back what was written.

  A record is written as an object, often beside members of something that surrounds it:
  the tag of an action, or the chain id, the fee and the contracts of a transaction.
  `Takes reserved own reader a` says that the reader takes `a` from the members `own`,
  whatever members with reserved names are beside them. The judgement is put together
  field by field, in the way that the reader is. What is proved:
    1. `readX_ofX` — each leaf is read back, and so are lists and maps of what is read
       back.
    2. `Takes.bind`, `Takes.required`, `Takes.optionalField`, `Takes.defaulted` — the
       laws of records.
    3. `Takes.beside` — a record keeps being read where reserved members are added.
-/

namespace NameService.Json

variable {α β : Type}

/-! ## Leaves -/

theorem readUInt32_ofUInt32 (n : UInt32) : readUInt32 (ofUInt32 n) = some n := by
  have hrange : (0 : Int) ≤ n.toNat ∧ (n.toNat : Int) ≤ UInt32.size - 1 := by
    have hlt : n.toNat < UInt32.size := n.toNat_lt
    omega
  rw [ofUInt32, readUInt32, readInteger, if_pos hrange]
  simp

theorem readInt32_ofInt32 (n : Int32) : readInt32 (ofInt32 n) = some n := by
  rw [ofInt32, readInt32, readInteger, if_pos ⟨n.minValue_le_toInt, n.toInt_le⟩]
  simp

theorem readInt64_ofInt64 (n : Int64) : readInt64 (ofInt64 n) = some n := by
  rw [ofInt64, readInt64, readInteger, if_pos ⟨n.minValue_le_toInt, n.toInt_le⟩]
  simp

/-- A numeral without a sign is read whether a sign is allowed or not. -/
theorem ofPlusText?_of_ofText? {s : String} {n : Nat} (h : Decimal.ofText? s = some n) :
    Decimal.ofPlusText? s = some n := by
  rw [Decimal.ofText?] at h
  rw [Decimal.ofPlusText?]
  split
  · next digits hs =>
    rw [hs] at h
    simp [Decimal.ofChars?, Char.isDigit] at h
  · exact h

theorem readId_ofId (id : UInt64) : readId (ofId id) = some id := by
  have hnumber : Decimal.ofPlusText? (Decimal.toText id.toNat) = some id.toNat :=
    ofPlusText?_of_ofText? (Decimal.ofText?_toText id.toNat)
  have hrange : id.toNat < UInt64.size := id.toNat_lt
  simp only [ofId, readId, hnumber, if_pos hrange, UInt64.ofNat_toNat]

theorem readBytes_ofBytes (bs : Bytes) : readBytes (ofBytes bs) = some bs := by
  have hdigits : Hex.ofDigits? (Hex.digits Hex.digit bs) = some bs := Hex.ofDigits?_digits bs
  simp only [ofBytes, Hex.encode, readBytes, String.toList_ofList]
  split
  · next rest hstart =>
    -- no byte has the digits `0x`
    rw [hstart] at hdigits
    simp [Hex.ofDigits?, Hex.digitValue?] at hdigits
  · exact hdigits

/-! ## Lists and maps -/

theorem readList_map {read : Reader α} {write : α → Json} {as : List α}
    (h : ∀ a ∈ as, read (write a) = some a) :
    readList read (.array (as.map write)) = some as := by
  rw [readList, Result.mapM_eq_some, List.forall₂_map_left_iff, List.forall₂_same]
  exact h

theorem readList_ofList {read : Reader α} {write : α → Json} (h : ∀ a, read (write a) = some a)
    (as : List α) : readList read (ofList write as) = some as :=
  readList_map fun a _ => h a

theorem readMap_ofMap {read : Reader α} {write : α → Json} (h : ∀ a, read (write a) = some a)
    (m : SortedMap α) : readMap read (ofMap write m) = some m := by
  have hentries : (m.entries.map fun e => (e.1, write e.2)).mapM
      (fun e : String × Json => (read e.2).map fun a => (e.1, a)) = some m.entries := by
    rw [Result.mapM_eq_some, List.forall₂_map_left_iff, List.forall₂_same]
    intro e _
    rw [h, Option.map_some]
  rw [ofMap, readMap, hentries, Option.map_some, SortedMap.ofList_entries]

/-! ## Members -/

theorem lookup_cons_of_ne {key name : String} (j : Json) (members : List (String × Json))
    (h : name ≠ key) : ((key, j) :: members).lookup name = members.lookup name := by
  rw [List.lookup_cons, beq_false_of_ne h]

theorem lookup_of_notMem {name : String} {members : List (String × Json)}
    (h : name ∉ members.map Prod.fst) : members.lookup name = none := by
  rw [List.lookup_eq_none_iff]
  intro member hmember
  simp only [bne_iff_ne, ne_eq]
  rintro rfl
  exact h (List.mem_map_of_mem hmember)

@[simp] theorem lookup_optional (name key : String) (o : Option Json) :
    (Json.optional name o).lookup key = if key = name then o else none := by
  cases o with
  | none => simp [Json.optional]
  | some j =>
    by_cases h : key = name
    · rw [if_pos h, h, Json.optional, List.lookup_cons_self]
    · rw [if_neg h, Json.optional, lookup_cons_of_ne _ _ h, List.lookup_nil]

/-! ## Records -/

/-- From the members `own`, beside which any reserved ones may stand, the reader takes `a`
and leaves all members for the next field. -/
def Takes (reserved : List String) (own : List (String × Json)) (reader : FieldReader α) (a : α) :
    Prop :=
  ∀ members : List (String × Json),
    (∀ name, name ∉ reserved → members.lookup name = own.lookup name) →
      reader (.named members) = some (a, .named members)

namespace Takes

variable {reserved : List String} {own : List (String × Json)} {name : String}

theorem pure (a : α) : Takes reserved own (Pure.pure a) a :=
  fun _ _ => rfl

theorem bind {reader : FieldReader α} {next : α → FieldReader β} {a : α} {b : β}
    (h : Takes reserved own reader a) (hnext : Takes reserved own (next a) b) :
    Takes reserved own (reader >>= next) b := by
  intro members hown
  show (reader (.named members) >>= fun r => next r.1 r.2) = some (b, .named members)
  rw [h members hown]
  exact hnext members hown

theorem required {read : Reader α} {j : Json} {a : α} (hname : name ∉ reserved)
    (hj : own.lookup name = some j) (hread : read j = some a) :
    Takes reserved own (Json.required name read) a := by
  intro members hown
  simp only [Json.required, takeField, hown name hname, hj, hread, Option.map_some]

/-- A reader that refuses null does not mistake a value for an absent one. -/
theorem optionalField {read : Reader α} (write : α → Json) (o : Option α)
    (hname : name ∉ reserved) (hj : own.lookup name = o.map write)
    (hread : ∀ a, read (write a) = some a) (hnull : read .null = none) :
    Takes reserved own (Json.optionalField name read) o := by
  intro members hown
  cases o with
  | none => simp only [Json.optionalField, takeField, hown name hname, hj, Option.map_none]
  | some a =>
    have hfield : takeField name (.named members) = some (some (write a), .named members) := by
      rw [takeField, hown name hname, hj, Option.map_some]
    have hwrite : read (write a) = some a := hread a
    rw [Json.optionalField, hfield]
    cases hj : write a with
    | null =>
      rw [hj, hnull] at hwrite
      cases hwrite
    | _ =>
      rw [hj] at hwrite
      simp only [hwrite, Option.map_some]

theorem optionalText {o : Option String} (hname : name ∉ reserved)
    (hj : own.lookup name = o.map .text) :
    Takes reserved own (Json.optionalField name readText) o :=
  optionalField .text o hname hj (fun _ => rfl) rfl

theorem defaulted {read : Reader α} {j : Json} {value a : α} (hname : name ∉ reserved)
    (hj : own.lookup name = some j) (hread : read j = some a) :
    Takes reserved own (Json.defaulted name value read) a := by
  intro members hown
  simp only [Json.defaulted, takeField, hown name hname, hj, hread, Option.map_some]

theorem defaulted_none {read : Reader α} {value : α} (hname : name ∉ reserved)
    (hj : own.lookup name = none) : Takes reserved own (Json.defaulted name value read) value := by
  intro members hown
  simp only [Json.defaulted, takeField, hown name hname, hj]

/-- Members with reserved names may be added. -/
theorem beside {reader : FieldReader α} {a : α} (h : Takes reserved own reader a)
    {reserved' : List String} {own' : List (String × Json)} (hsub : reserved' ⊆ reserved)
    (hown : ∀ name, name ∉ reserved → own'.lookup name = own.lookup name) :
    Takes reserved' own' reader a := by
  intro members hmembers
  refine h members fun name hname => ?_
  rw [hmembers name fun hmem => hname (hsub hmem), hown name hname]

/-- All fields of an object that holds reserved members beside its own. -/
theorem read {reader : FieldReader α} {a : α} {members : List (String × Json)}
    (h : Takes reserved own reader a)
    (hown : ∀ name, name ∉ reserved → members.lookup name = own.lookup name) :
    (Fields.named members).read reader = some a := by
  simp only [Fields.read, h members hown]

theorem record {reader : FieldReader α} {a : α} (h : Takes [] own reader a) :
    readRecord reader (.object own) = some a :=
  h.read fun _ _ => rfl

end Takes

end NameService.Json
