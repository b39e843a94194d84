import Mathlib.Data.String.Basic
import NameService.Proofs.Acceptance
import NameService.Proofs.Actions
import NameService.Proofs.Reading

/-
  Validators by their keys.

  A map of validators has names for keys, and the wire has the keys themselves. A name is
  read only if it is the one that its key is given, and names are in the order of their keys,
  so that nothing of a map is changed by writing it. The other way round, a map holds one
  entry for a key, whatever a message holds. What is proved:
    1. `Validator.name_lt_name_iff` — names are in the order of the keys.
    2. `Validator.keyed_and_ordered` — which texts are names, and that a map is written as
       the keys behind its names, in their order, and read back as it was.
    3. `Validator.read_by_key` — a message with keys of the one scheme is read as the map of
       the last power of each of its keys; `Validator.decode_eq_entries` says what is read of
       keys of other schemes.
-/

namespace NameService

open Result

variable {network : Network}

namespace Validator

/-! ## Names -/

theorem name_inj {key key' : Bytes} (h : name key = name key') : key = key' := by
  apply Hex.encode_inj
  have hchars := congrArg String.toList h
  rw [name, name, String.toList_append, String.toList_append] at hchars
  exact String.toList_inj.mp (List.append_cancel_left hchars)

/-- What stands in front of two texts alike does not matter for their order. -/
theorem append_lt_append_iff {front cs ds : List Char} : front ++ cs < front ++ ds ↔ cs < ds := by
  induction front with
  | nil => rfl
  | cons c front ih => simp [ih]

/-- Names are in the order of the keys. -/
theorem name_lt_name_iff {key key' : Bytes} : name key < name key' ↔ key < key' := by
  rw [String.lt_iff_toList_lt, name, name, String.toList_append, String.toList_append,
    append_lt_append_iff, Hex.encode, Hex.encode, String.toList_ofList, String.toList_ofList,
    Hex.digits_lt_digits_iff]

/-- A key of full length is read from its name, and from no other text. -/
theorem ofName_eq_ok {text : String} {key : Bytes} :
    ofName text = .ok key ↔ key.length = 32 ∧ text = name key := by
  constructor
  · intro h
    obtain ⟨hname, hlength⟩ := name_of_ofName h
    exact ⟨hlength, hname.symm⟩
  · intro h
    obtain ⟨hlength, rfl⟩ := h
    obtain ⟨found, hfound⟩ := (accepts (name key)).mpr (isName_name hlength)
    obtain rfl : found = key := name_inj (name_of_ofName hfound).1
    exact hfound

theorem not_isName_iff {validator : String} :
    ¬ IsName validator ↔ ∀ key : Bytes, key.length = 32 → validator ≠ name key := by
  rw [isName_iff]
  push Not
  rfl

/-- The one error about the name of a validator. -/
theorem ofName_eq_error {validator : String} {e : Error} :
    ofName validator = .error e ↔ ¬ IsName validator ∧ e = .violation .validatorKey := by
  have hviolation : ∀ e, ofName validator = .error e → e = .violation .validatorKey := by
    intro e h
    rw [ofName] at h
    split at h
    · exact (Except.error.inj h).symm
    · split at h
      · split at h
        · cases h
        · exact (Except.error.inj h).symm
      · exact (Except.error.inj h).symm
  constructor
  · intro h
    exact ⟨(accepts validator).not_of_error h, hviolation e h⟩
  · intro h
    obtain ⟨hname, rfl⟩ := h
    cases hread : ofName validator with
    | ok key => exact absurd ((accepts validator).mp ⟨key, hread⟩) hname
    | error e => rw [hviolation e hread]

/-! ## Maps and messages -/

/-- What an entry of a map is written as: a key of the one scheme, of full length, and the
power under its name. -/
def WrittenAs (e : String × Int64) (u : Wire.ValidatorUpdate) : Prop :=
  ∃ key : Bytes, key.length = 32 ∧ e.1 = name key ∧ u = ⟨some ⟨"ed25519", key⟩, e.2⟩

theorem writtenAs_of_toWire {updates : SortedMap Int64} {us : List Wire.ValidatorUpdate}
    (h : updatesToWire updates = .ok us) : List.Forall₂ WrittenAs updates.entries us := by
  refine (mapM_eq_ok.mp h).imp fun e u hu => ?_
  obtain ⟨key, hkey, hmk⟩ := bind_eq_ok.mp hu
  obtain rfl := pure_eq_ok.mp hmk
  obtain ⟨hlength, hname⟩ := ofName_eq_ok.mp hkey
  exact ⟨key, hlength, hname, rfl⟩

/-- Validators are written as the entries of their map, with keys of the one scheme. -/
theorem map_entry_of_toWire {updates : SortedMap Int64} {us : List Wire.ValidatorUpdate}
    (h : updatesToWire updates = .ok us) :
    (∀ u ∈ us, ∀ key ∈ u.publicKey, key.type = "ed25519") ∧ us.map entry = updates.entries := by
  apply forall₂_and_eq_iff.mp
  refine (writtenAs_of_toWire h).flip.imp fun u e hu => ?_
  obtain ⟨key, -, hname, rfl⟩ := hu
  refine ⟨?_, Prod.ext hname.symm rfl⟩
  intro key' hkey'
  obtain rfl := Option.some.inj hkey'
  rfl

theorem keys_increase_of_toWire {updates : SortedMap Int64} {us : List Wire.ValidatorUpdate}
    (h : updatesToWire updates = .ok us) : us.Pairwise fun u v => keyOf u < keyOf v := by
  have hsorted := updates.sorted
  rw [← (map_entry_of_toWire h).2, List.pairwise_map] at hsorted
  exact hsorted.imp name_lt_name_iff.mp

/-- A map is written exactly if its keys are names. -/
theorem encode_accepts (updates : SortedMap Int64) :
    Accepts (Action.encode network (.enact (.setValidators updates)))
      (∀ e ∈ updates.entries, ∃ key : Bytes, key.length = 32 ∧ e.1 = name key) := by
  have hwrite : Accepts (Action.encode network (.enact (.setValidators updates)))
      (∀ e ∈ updates.entries, IsName e.1) :=
    ((updates_accepts updates).bind_pure _).bind_pure _
  exact hwrite.congr (by simp only [isName_iff])

/-- The texts that are read as keys are the names of keys of full length, and all others
break the same rule. A map of such names is written, as a list of one message for each
entry, in the order of the keys, and is read back on every network; the bound is that of all
lengths on the wire. -/
theorem keyed_and_ordered (network : Network) :
    (∀ text key, ofName text = .ok key ↔ key.length = 32 ∧ text = name key) ∧
    (∀ text, (∀ key : Bytes, key.length = 32 → text ≠ name key) →
      ofName text = .error (.violation .validatorKey)) ∧
    (∀ updates, (∃ bs, Action.encode network (.enact (.setValidators updates)) = .ok bs) ↔
      ∀ e ∈ updates.entries, ∃ key : Bytes, key.length = 32 ∧ e.1 = name key) ∧
    ∀ updates bs, Action.encode network (.enact (.setValidators updates)) = .ok bs →
      ∃ us, bs = Wire.Message.encode
          (⟨some (.applyDiff ⟨Wire.header, us⟩)⟩ : Wire.ProposalOptions) ∧
        List.Forall₂ WrittenAs updates.entries us ∧
        us.Pairwise (fun u v => keyOf u < keyOf v) ∧
        ∀ other, Action.ofWire other (.applyDiff ⟨Wire.header, us⟩) =
            .ok (.enact (.setValidators updates)) ∧
          (bs.length < 2 ^ 64 →
            Action.decode other bs = .ok (.enact (.setValidators updates))) := by
  refine ⟨fun _ _ => ofName_eq_ok, ?_, encode_accepts, ?_⟩
  · intro text h
    exact ofName_eq_error.mpr ⟨not_isName_iff.mpr h, rfl⟩
  · intro updates bs h
    obtain ⟨w, hw, rfl⟩ := Action.encode_eq_ok.mp h
    obtain ⟨us, hus, hmk⟩ := bind_eq_ok.mp hw
    obtain rfl := pure_eq_ok.mp hmk
    have hread : ∀ other, Action.ofWire other (.applyDiff ⟨Wire.header, us⟩) =
        .ok (.enact (.setValidators updates)) := by
      intro other
      rw [Action.ofWire, updatesCodec.read_write hus]
      rfl
    refine ⟨us, rfl, writtenAs_of_toWire hus, keys_increase_of_toWire hus, fun other => ?_⟩
    refine ⟨hread other, fun hlength => ?_⟩
    rw [Action.decode, Wire.ProposalOptions.decode?_encode _ hlength]
    exact hread other

/-- A key of one byte has no name that is read; two powers are written in the order of the
keys, and not in that in which they were given. -/
theorem keyed_and_ordered_two :
    let low : Bytes := List.replicate 32 0
    let high : Bytes := List.replicate 32 171
    let updates : SortedMap Int64 := .ofList [(name high, 5), (name low, -1)]
    ofName "ed25519_ab" = .error (.violation .validatorKey) ∧ ofName (name high) = .ok high ∧
      ∃ bs us, Action.encode .testnet (.enact (.setValidators updates)) = .ok bs ∧
        List.Forall₂ WrittenAs updates.entries us ∧ us.map keyOf = [low, high] ∧
        us.Pairwise (fun u v => keyOf u < keyOf v) ∧
        Action.decode .mainnet bs = .ok (.enact (.setValidators updates)) := by
  intro low high updates
  obtain ⟨hread, hrefused, -, hwritten⟩ := keyed_and_ordered .testnet
  have hno : ofName "ed25519_ab" = .error (.violation .validatorKey) := by decide
  have hshort : ¬ IsName "ed25519_ab" := (ofName_eq_error.mp hno).1
  let us : List Wire.ValidatorUpdate := [⟨some ⟨"ed25519", low⟩, -1⟩, ⟨some ⟨"ed25519", high⟩, 5⟩]
  have hbytes : Action.encode .testnet (.enact (.setValidators updates)) = .ok (Wire.Message.encode
      (⟨some (.applyDiff ⟨Wire.header, us⟩)⟩ : Wire.ProposalOptions)) := by
    decide +kernel
  obtain ⟨vs, hsame, hentries, hkeys, hback⟩ := hwritten _ _ hbytes
  cases Wire.ProposalOptions.encode_inj (by decide +kernel) hsame
  exact ⟨hrefused _ (not_isName_iff.mp hshort), (hread _ _).mpr ⟨rfl, rfl⟩, _, us, hbytes,
    hentries, rfl, hkeys, (hback .mainnet).2 (by decide +kernel)⟩

/-! ## Messages of others -/

/-- A message with a key of the one scheme, of full length. -/
def OfScheme (u : Wire.ValidatorUpdate) : Prop :=
  ∃ key : Bytes, u.publicKey = some ⟨"ed25519", key⟩ ∧ key.length = 32

theorem OfScheme.length_keyOf {u : Wire.ValidatorUpdate} (h : OfScheme u) :
    (keyOf u).length = 32 := by
  obtain ⟨key, hkey, hlength⟩ := h
  rw [keyOf, hkey]
  exact hlength

section

variable {us : List Wire.ValidatorUpdate}

/-- The entries of a map are the last powers of the keys that name them. -/
theorem lastOf_of_mem_entries (hscheme : ∀ u ∈ us, OfScheme u) {e : String × Int64}
    (he : e ∈ (SortedMap.ofList (us.map entry)).entries) :
    ∃ key u, ofName e.1 = .ok key ∧ SortedMap.lastOf keyOf key us = some u ∧ u.power = e.2 := by
  have hnames : ∀ u ∈ us, ∀ v ∈ us, keyOf u = keyOf v → (entry u).1 = (entry v).1 :=
    fun u _ v _ hsame => congrArg name hsame
  obtain ⟨u, hu, hlast, rfl⟩ := SortedMap.exists_lastOf_of_mem_ofList hnames he
  exact ⟨keyOf u, u, ofName_eq_ok.mpr ⟨(hscheme u hu).length_keyOf, rfl⟩, hlast, rfl⟩

/-- No key is lost. -/
theorem exists_entry_of_mem (hscheme : ∀ u ∈ us, OfScheme u) {u : Wire.ValidatorUpdate}
    (hu : u ∈ us) :
    ∃ e ∈ (SortedMap.ofList (us.map entry)).entries, ofName e.1 = .ok (keyOf u) := by
  have hname : (entry u).1 ∈ (us.map entry).map Prod.fst :=
    List.mem_map_of_mem (List.mem_map_of_mem hu)
  obtain ⟨e, he, hsame⟩ := List.mem_map.mp (SortedMap.mem_keys_ofList.mpr hname)
  exact ⟨e, he, ofName_eq_ok.mpr ⟨(hscheme u hu).length_keyOf, hsame⟩⟩

/-- A map has one entry for each key of the messages that it is made of. -/
theorem length_ofList_entry (us : List Wire.ValidatorUpdate) :
    (SortedMap.ofList (us.map entry)).entries.length = (us.map keyOf).dedup.length := by
  have hnames : (us.map entry).map Prod.fst = (us.map keyOf).map name := by
    rw [List.map_map, List.map_map]
    rfl
  have hinj : Function.Injective name := fun _ _ => name_inj
  rw [SortedMap.length_ofList, hnames, List.dedup_map_of_injective hinj, List.length_map]

theorem length_ofList_entry_iff :
    (SortedMap.ofList (us.map entry)).entries.length = us.length ↔ (us.map keyOf).Nodup := by
  rw [length_ofList_entry, ← List.length_map keyOf]
  constructor
  · intro hall
    exact List.dedup_eq_self.mp ((List.dedup_sublist _).eq_of_length hall)
  · intro hnodup
    rw [hnodup.dedup]

end

/-- What is read of a message: all its keys are there. If they are of the one scheme, the
entries of the map are named by them, each with the last power of its key, and none is
missing, so that there are as many entries as updates exactly if no key is repeated. -/
theorem read_by_key {bs : Bytes} {m : Wire.ApplyDiff} {action : Action}
    (hmessage : Wire.Message.decode? bs = some (⟨some (.applyDiff m)⟩ : Wire.ProposalOptions))
    (h : Action.decode network bs = .ok action) :
    ∃ updates, action = .enact (.setValidators updates) ∧
      (∀ u ∈ m.validatorUpdates, ∃ key, u.publicKey = some key ∧ key.data ≠ []) ∧
      ((∀ u ∈ m.validatorUpdates, OfScheme u) →
        (∀ e ∈ updates.entries, ∃ key u, ofName e.1 = .ok key ∧
          SortedMap.lastOf keyOf key m.validatorUpdates = some u ∧ u.power = e.2) ∧
        (∀ u ∈ m.validatorUpdates, ∃ e ∈ updates.entries, ofName e.1 = .ok (keyOf u)) ∧
        updates.entries.length = (m.validatorUpdates.map keyOf).dedup.length ∧
        (updates.entries.length = m.validatorUpdates.length ↔
          (m.validatorUpdates.map keyOf).Nodup)) := by
  rw [Action.decode, hmessage] at h
  cases Action.reads_of_ofWire h with
  | applyDiff hupdates =>
    obtain ⟨hkeys, rfl⟩ := hupdates
    refine ⟨_, rfl, fun u hu => keyOf_ne_nil_iff.mp (hkeys u hu), fun hscheme => ?_⟩
    exact ⟨fun e => lastOf_of_mem_entries hscheme, fun u => exists_entry_of_mem hscheme,
      length_ofList_entry _, length_ofList_entry_iff⟩

/-- Of three updates with two keys the last one of each key is left. -/
theorem read_by_key_repeated :
    let low : Wire.ValidatorUpdate := ⟨some ⟨"ed25519", List.replicate 32 0⟩, 1⟩
    let high (power : Int64) : Wire.ValidatorUpdate :=
      ⟨some ⟨"ed25519", List.replicate 32 171⟩, power⟩
    let m : Wire.ApplyDiff := ⟨Wire.header, [high 5, low, high 2]⟩
    ∃ bs updates,
      Wire.Message.decode? bs = some (⟨some (.applyDiff m)⟩ : Wire.ProposalOptions) ∧
        Action.decode .testnet bs = .ok (.enact (.setValidators updates)) ∧
        (∀ u ∈ m.validatorUpdates, OfScheme u) ∧ updates.entries.length = 2 ∧
        ∀ e ∈ updates.entries, ∃ key u, ofName e.1 = .ok key ∧
          SortedMap.lastOf keyOf key m.validatorUpdates = some u ∧ u.power = e.2 := by
  intro low high m
  have hmessage : Wire.Message.decode? (Wire.Message.encode
      (⟨some (.applyDiff m)⟩ : Wire.ProposalOptions)) =
        some (⟨some (.applyDiff m)⟩ : Wire.ProposalOptions) := by
    decide +kernel
  have haction : Action.decode .testnet (Wire.Message.encode
      (⟨some (.applyDiff m)⟩ : Wire.ProposalOptions)) =
        .ok (.enact (.setValidators (.ofList [entry low, entry (high 2)]))) := by
    decide +kernel
  have hscheme : ∀ u ∈ m.validatorUpdates, OfScheme u := by
    intro u hu
    simp only [m, List.mem_cons, List.not_mem_nil, or_false] at hu
    obtain rfl | rfl | rfl := hu
    all_goals exact ⟨_, rfl, rfl⟩
  obtain ⟨updates, hupdates, -, hread⟩ := read_by_key hmessage haction
  obtain ⟨hentries, -, hlength, -⟩ := hread hscheme
  rw [hupdates] at haction
  exact ⟨_, updates, hmessage, haction, hscheme, hlength.trans (by decide +kernel), hentries⟩

/-- Two updates of one key become one entry. -/
theorem updates_merged :
    let key : Bytes := List.replicate 32 0
    let us : List Wire.ValidatorUpdate := [⟨some ⟨"ed25519", key⟩, 5⟩, ⟨some ⟨"ed25519", key⟩, 7⟩]
    let bs : Bytes := Wire.Message.encode
      (⟨some (.applyDiff ⟨Wire.header, us⟩)⟩ : Wire.ProposalOptions)
    let updates : SortedMap Int64 := .ofList [(name key, 7)]
    Wire.Message.decode? bs =
        some (⟨some (.applyDiff ⟨Wire.header, us⟩)⟩ : Wire.ProposalOptions) ∧
      Action.decode .testnet bs = .ok (.enact (.setValidators updates)) ∧
      us.length = 2 ∧ updates.entries.length = 1 := by
  decide +kernel

/-! ## Keys of other schemes -/

theorem isName_name_iff {key : Bytes} : IsName (name key) ↔ key.length = 32 := by
  constructor
  · intro h
    obtain ⟨found, hlength, hname⟩ := isName_iff.mp h
    rw [name_inj hname, hlength]
  · exact isName_name

/-- A message is read as soon as all its keys are there, whatever their schemes and their
lengths. Names do not tell schemes, and the name of a key of another length is none that is
read. -/
theorem decode_eq_entries {bs : Bytes} {m : Wire.ApplyDiff}
    (hmessage : Wire.Message.decode? bs = some (⟨some (.applyDiff m)⟩ : Wire.ProposalOptions))
    (hkeys : ∀ u ∈ m.validatorUpdates, keyOf u ≠ []) :
    Action.decode network bs =
        .ok (.enact (.setValidators (.ofList (m.validatorUpdates.map entry)))) ∧
      ∀ u ∈ m.validatorUpdates, IsName (entry u).1 ↔ (keyOf u).length = 32 := by
  refine ⟨?_, fun u _ => isName_name_iff⟩
  rw [Action.decode, hmessage]
  exact bind_eq_ok.mpr ⟨_, updatesOfWire_eq_ok.mpr ⟨hkeys, rfl⟩, rfl⟩

/-- A key of another scheme under the name of a key of the one scheme, and a key of a single
byte under a text that is no name. -/
theorem foreign_keys_read :
    let key : Bytes := List.replicate 32 0
    let bytes (u : Wire.ValidatorUpdate) : Bytes := Wire.Message.encode
      (⟨some (.applyDiff ⟨Wire.header, [u]⟩)⟩ : Wire.ProposalOptions)
    Action.decode .testnet (bytes ⟨some ⟨"secp256k1", key⟩, 10⟩) =
        .ok (.enact (.setValidators (.ofList [(name key, 10)]))) ∧
      Action.decode .testnet (bytes ⟨some ⟨"ed25519", [171]⟩, 5⟩) =
        .ok (.enact (.setValidators (.ofList [("ed25519_ab", 5)]))) ∧
      ofName (name key) = .ok key ∧ ofName "ed25519_ab" = .error (.violation .validatorKey) := by
  decide +kernel

end Validator

end NameService
