import NameService.Proofs.Accepts
import NameService.Proofs.FixedPoint
import NameService.Proofs.Hashed

/-
  Actions that are written for one network and read for another.

  The bytes of an action hold hashes, and the reader spells these for its own network.
  `X.mapAddresses f` puts `f address` in the place of every address of the chain, the keys
  of electors included, and `Address.respell p q` spells an address of network `p` for
  network `q`. What is proved:
    1. `X.ofWire_respell` — whatever is read for `p` is read for `q` too, with respelled
       addresses and nothing else changed; what is refused for one is refused for both,
       with the same error.
    2. `Action.decode_encode_for` — the bytes of an action are read for any network as the
       normal form of the action, respelled for that network.
  A map of electors is respelled key by key. No two of its entries become one, since
  different keys have different hashes once they are read (`Elector.updatesOfWire_respell`).
-/

namespace NameService

open Result

/-! ## Other addresses -/

/-- An address of network `p` as it is written for network `q`; any other text stays as it
is. -/
def Address.respell (p q : Network) (address : String) : String :=
  match decodeFor p address >>= encode q with
  | .ok spelling => spelling
  | .error _ => address

section

variable (f : String → String)

def Transfer.mapAddresses (t : Transfer) : Transfer :=
  { t with
    sender := f t.sender
    recipient := f t.recipient }

def AccountConfiguration.mapAddresses (c : AccountConfiguration) : AccountConfiguration :=
  { c with owner := f c.owner }

def Measure.mapAddresses : Measure → Measure
  | .send transfer => .send (transfer.mapAddresses f)
  | .updateElectorate electorateId electors => .updateElectorate electorateId (electors.mapKeys f)
  | .configureCash c => .configureCash
      { c with
        owner := f c.owner
        collectorAddress := f c.collectorAddress }
  | .configureTxFee c => .configureTxFee { c with owner := f c.owner }
  | .configureUsernames c => .configureUsernames { c with owner := f c.owner }
  | .configureAccounts c => .configureAccounts (c.mapAddresses f)
  | .configureMessageFees c => .configureMessageFees ⟨f c.owner, f c.feeAdmin⟩
  | unchanged => unchanged

mutual

def Action.mapAddresses : Action → Action
  | .enact measure => .enact (measure.mapAddresses f)
  | .batch members => .batch (Action.mapAddressesList members)

def Action.mapAddressesList : List Action → List Action
  | [] => []
  | member :: members => member.mapAddresses :: Action.mapAddressesList members

end

theorem Action.mapAddressesList_eq_map (members : List Action) :
    Action.mapAddressesList f members = members.map (Action.mapAddresses f) := by
  induction members with
  | nil => rfl
  | cons member members ih => rw [Action.mapAddressesList, ih, List.map_cons]

end

/-! ## Reading for another network -/

variable {p q : Network}

namespace Address

theorem respell_of_decodeFor {address : String} {hash : Bytes}
    (h : decodeFor p address = .ok hash) : respell p q address = Bech32.encode q.hrp hash := by
  rw [respell, h, ok_bind, encode, if_pos (length_of_decodeFor h)]

/-- A hash that network `p` has spelled. -/
theorem Reads.respell {hash : Bytes} {text : String} (h : Reads p hash text) :
    respell p q text = Bech32.encode q.hrp hash :=
  respell_of_decodeFor h.decodeFor

theorem respell_canonical {address : String} {hash : Bytes}
    (h : decodeFor p address = .ok hash) :
    respell p q (canonical p address) = Bech32.encode q.hrp hash :=
  respell_of_decodeFor (decodeFor_canonical h)

theorem ofField_respell (field : String) (bs : Bytes) :
    ofField q field bs = (ofField p field bs).map (respell p q) := by
  refine step_eq_map fun hash => ?_
  simp only [encode]
  split
  · next hlength =>
    have hread : Reads p hash (Bech32.encode p.hrp hash) := ⟨hlength, rfl⟩
    exact congrArg Except.ok hread.respell.symm
  · rfl

end Address

theorem Transfer.ofWire_respell (m : Wire.Send) :
    ofWire q m = (ofWire p m).map (mapAddresses (Address.respell p q)) := by
  refine bind_eq_map (Address.ofField_respell _ _) fun sender _ => ?_
  refine bind_eq_map (Address.ofField_respell _ _) fun recipient _ => ?_
  exact step_eq_map fun amount => rfl

theorem AccountConfiguration.ofUpdate_respell (m : Wire.Update Wire.AccountConfiguration) :
    ofUpdate q m = (ofUpdate p m).map (mapAddresses (Address.respell p q)) := by
  refine step_eq_map fun patch => ?_
  exact bind_eq_map (Address.ofField_respell _ _) fun owner _ => rfl

namespace Elector

theorem updateOfWire_respell (m : Wire.Elector) :
    updateOfWire q m = (updateOfWire p m).map fun e => (Address.respell p q e.1, e.2) :=
  bind_eq_map (Address.ofField_respell _ _) fun _ _ => rfl

/-- Keys that are read for one network differ in the spelling of another one, too. -/
theorem eq_of_respell_eq {ms : List Wire.Elector} {entries : List (String × UInt32)}
    (h : ms.mapM (updateOfWire p) = .ok entries) {d e : String × UInt32} (hd : d ∈ entries)
    (he : e ∈ entries) (heq : Address.respell p q d.1 = Address.respell p q e.1) :
    d.1 = e.1 := by
  obtain ⟨hlengths, rfl⟩ := map_entry_of_mapM h
  obtain ⟨m, hm, rfl⟩ := List.mem_map.mp hd
  obtain ⟨m', hm', rfl⟩ := List.mem_map.mp he
  have hread : Address.Reads p m.address (entry p m).1 := ⟨hlengths m hm, rfl⟩
  have hread' : Address.Reads p m'.address (entry p m').1 := ⟨hlengths m' hm', rfl⟩
  rw [hread.respell, hread'.respell] at heq
  have hspelled : Address.Reads q m.address (Bech32.encode q.hrp m.address) := ⟨hread.1, rfl⟩
  have hspelled' : Address.Reads q m'.address (Bech32.encode q.hrp m.address) :=
    ⟨hread'.1, heq.symm⟩
  rw [← hread.2, ← hread'.2, hspelled.inj hspelled']

theorem updatesOfWire_respell (ms : List Wire.Elector) :
    updatesOfWire q ms = (updatesOfWire p ms).map (SortedMap.mapKeys (Address.respell p q)) := by
  refine bind_eq_map (mapM_eq_map updateOfWire_respell ms) fun entries hentries => ?_
  have hkeys := SortedMap.mapKeys_ofList fun d hd e he => eq_of_respell_eq (q := q) hentries hd he
  exact congrArg Except.ok hkeys.symm

/-- The electors that are read for network `q` where those of network `p` were written: each
hash is a key, in the spelling of `q`, and of the keys that spelled it for `p` the largest
decides on the weight. -/
theorem mem_normal_respell {electors : SortedMap UInt32} {ms : List Wire.Elector}
    (h : updatesToWire p electors = .ok ms) {key : String} {weight : UInt32} :
    (key, weight) ∈ ((normal p electors).mapKeys (Address.respell p q)).entries ↔
      ∃ e ∈ electors.entries, ∃ hash, Address.decodeFor p e.1 = .ok hash ∧
        Bech32.encode q.hrp hash = key ∧ e.2 = weight ∧
          ∀ d ∈ electors.entries, Address.decodeFor p d.1 = .ok hash → d.1 ≤ e.1 := by
  have haccepts := Accepts.mapM (fun e : String × UInt32 =>
    Accepts.bind_pure (x := Address.decodeFor p e.1) Iff.rfl
      fun hash => (⟨hash, e.2⟩ : Wire.Elector)) electors.entries
  have hhash : ∀ e ∈ electors.entries, ∃ hash, Address.decodeFor p e.1 = .ok hash :=
    haccepts.mp ⟨ms, h⟩
  have hread : ms.mapM (updateOfWire p) = .ok (respelled p electors) :=
    updateCodec.list.read_write h
  have hkeys : (normal p electors).mapKeys (Address.respell p q) =
      SortedMap.ofList (electors.entries.map fun e =>
        (Address.respell p q (Address.canonical p e.1), e.2)) := by
    have hmap := SortedMap.mapKeys_ofList fun d hd e he => eq_of_respell_eq (q := q) hread hd he
    rw [normal, hmap, respelled, List.map_map]
    rfl
  rw [hkeys, SortedMap.mem_ofList_newKeys electors fun key =>
    Address.respell p q (Address.canonical p key)]
  -- two keys of the map are respelled alike if and only if they have one hash
  constructor
  · rintro ⟨e, he, rfl, rfl, hlargest⟩
    obtain ⟨hash, hdecode⟩ := hhash e he
    refine ⟨e, he, hash, hdecode, (Address.respell_canonical hdecode).symm, rfl, ?_⟩
    intro d hd hsame
    apply hlargest d hd
    rw [Address.respell_canonical hsame, Address.respell_canonical hdecode]
  · rintro ⟨e, he, hash, hdecode, rfl, rfl, hlargest⟩
    refine ⟨e, he, Address.respell_canonical hdecode, rfl, ?_⟩
    intro d hd hkey
    obtain ⟨hash', hdecode'⟩ := hhash d hd
    rw [Address.respell_canonical hdecode'] at hkey
    have hread : Address.Reads q hash (Bech32.encode q.hrp hash) :=
      ⟨Address.length_of_decodeFor hdecode, rfl⟩
    have hread' : Address.Reads q hash' (Bech32.encode q.hrp hash) :=
      ⟨Address.length_of_decodeFor hdecode', hkey⟩
    obtain rfl := hread.inj hread'
    exact hlargest d hd hdecode'

end Elector

namespace Action

theorem memberOfWire_respell (place : Wire.BatchPlace) :
    memberOfWire q place = (memberOfWire p place).map (mapAddresses (Address.respell p q)) := by
  unfold memberOfWire
  split
  · rw [transferOfWire_eq, transferOfWire_eq]
    exact bind_eq_map (Transfer.ofWire_respell _) fun _ _ => rfl
  · rfl

theorem ofWire_respell (w : Wire.ProposalOption) :
    ofWire q w = (ofWire p w).map (mapAddresses (Address.respell p q)) := by
  cases w with
  | batch m =>
    refine bind_eq_map (mapM_eq_map memberOfWire_respell m.messages) fun members _ => ?_
    rw [← mapAddressesList_eq_map]
    rfl
  | send m =>
    rw [ofWire, ofWire, transferOfWire_eq, transferOfWire_eq]
    exact bind_eq_map (Transfer.ofWire_respell _) fun _ _ => rfl
  | updateElectorate m =>
    refine step_eq_map fun id => ?_
    exact bind_eq_map (Elector.updatesOfWire_respell _) fun _ _ => rfl
  | updateCash m =>
    refine step_eq_map fun patch => ?_
    refine bind_eq_map (Address.ofField_respell _ _) fun owner _ => ?_
    refine bind_eq_map (Address.ofField_respell _ _) fun collector _ => ?_
    exact step_eq_map fun fee => rfl
  | updateTxFee m =>
    refine step_eq_map fun patch => ?_
    refine bind_eq_map (Address.ofField_respell _ _) fun owner _ => ?_
    exact step_eq_map fun fee => rfl
  | updateUsername m =>
    refine step_eq_map fun patch => ?_
    exact bind_eq_map (Address.ofField_respell _ _) fun owner _ => rfl
  | updateAccount m =>
    rw [ofWire_updateAccount, ofWire_updateAccount]
    exact bind_eq_map (AccountConfiguration.ofUpdate_respell _) fun _ _ => rfl
  | updateMessageFee m =>
    refine step_eq_map fun patch => ?_
    refine bind_eq_map (Address.ofField_respell _ _) fun owner _ => ?_
    exact bind_eq_map (Address.ofField_respell _ _) fun feeAdmin _ => rfl
  -- the rest has no address
  | textResolution m => rfl
  | releaseEscrow m =>
    exact step_eq_map fun coin => step_eq_map fun id => step_eq_map fun amount => rfl
  | applyDiff m => exact step_eq_map fun updates => rfl
  | updateElectionRule m =>
    exact step_eq_map fun id => step_eq_map fun threshold => step_eq_map fun quorum => rfl
  | setMessageFee m => exact step_eq_map fun fee => rfl
  | executeMigration m =>
    simp only [ofWire]
    split
    · rfl
    · rfl
  | upgradeSchema m => rfl

theorem decode_respell (bs : Bytes) :
    decode q bs = (decode p bs).map (mapAddresses (Address.respell p q)) := by
  unfold decode
  split
  · rfl
  · rfl
  · exact ofWire_respell _

/-- The bytes of an action are read for any network, as the normal form of the action with
addresses that are spelled for that network; every leaf is then in the form in which it is
read. For the network that they were written for, an action in normal form is read as it is.
Each hash among the electors is read with the weight of the largest key that spelled it. -/
theorem decode_encode_for {action : Action} {bs : Bytes} (h : action.encode p = .ok bs)
    (hlength : bs.length < 2 ^ 63) :
    decode q bs = .ok ((action.normal p).mapAddresses (Address.respell p q)) ∧
      (∀ leaf ∈ ((action.normal p).mapAddresses (Address.respell p q)).leaves, leaf.Read q) ∧
      (action.normal p = action → decode p bs = .ok action) ∧
      ∀ id electors, action = .enact (.updateElectorate id electors) →
        ∃ read, decode q bs = .ok (.enact (.updateElectorate id read)) ∧
          ∀ key weight, (key, weight) ∈ read.entries ↔
            ∃ e ∈ electors.entries, ∃ hash, Address.decodeFor p e.1 = .ok hash ∧
              Bech32.encode q.hrp hash = key ∧ e.2 = weight ∧
                ∀ d ∈ electors.entries, Address.decodeFor p d.1 = .ok hash → d.1 ≤ e.1 := by
  have hsame : decode p bs = .ok (action.normal p) := decode_encode h (by omega)
  have hread : decode q bs = .ok ((action.normal p).mapAddresses (Address.respell p q)) := by
    rw [decode_respell (p := p), hsame]
    rfl
  refine ⟨hread, ?_, fun hnormal => by rw [hsame, hnormal], ?_⟩
  · obtain ⟨w, -, hreads⟩ := readsBytes_of_decode hread
    exact hreads.leaves
  · rintro id electors rfl
    refine ⟨_, hread, fun key weight => ?_⟩
    obtain ⟨w, hw, -⟩ := encode_eq_ok.mp h
    obtain ⟨ms, hms, -⟩ := bind_eq_ok.mp hw
    exact Elector.mem_normal_respell hms

/-- Three electors, two of which are one in other letters, become two on the main chain; and
these two are read for their own network as they were written. -/
theorem decode_encode_for_two_spellings :
    ∃ (action merged : Action) (bs bs' : Bytes),
      action.encode .testnet = .ok bs ∧ bs.length < 2 ^ 63 ∧
      merged = .enact (.updateElectorate 7 (SortedMap.ofList
        [("iov1llllllllllllllllllllllllllllllllqz0cgk", 3),
         ("iov1qqqqqqqqqqqqqqqqqqqqqqqqqqqqqqqqvnwh0u", 2)])) ∧
      decode .mainnet bs = .ok merged ∧
      (action.normal .testnet).mapAddresses (Address.respell .testnet .mainnet) = merged ∧
      (action.normal .testnet).encode .testnet = .ok bs' ∧
      decode .testnet bs' = .ok (action.normal .testnet) ∧ action.normal .testnet ≠ action := by
  let action : Action := .enact (.updateElectorate 7 (SortedMap.ofList
    [("TIOV1QQQQQQQQQQQQQQQQQQQQQQQQQQQQQQQQZX8N0D", 1),
     ("tiov1llllllllllllllllllllllllllllllllwhxug8", 3),
     ("tiov1qqqqqqqqqqqqqqqqqqqqqqqqqqqqqqqqzx8n0d", 2)]))
  let elector (byte weight : UInt8) : Bytes :=
    [26, 24, 10, 20] ++ List.replicate 20 byte ++ [16, weight]
  let head : Bytes := [10, 2, 8, 1, 18, 8] ++ List.replicate 7 0 ++ [7]
  let bs : Bytes := [234, 4, 92] ++ head ++ elector 0 1 ++ elector 255 3 ++ elector 0 2
  let bs' : Bytes := [234, 4, 66] ++ head ++ elector 255 3 ++ elector 0 2
  have hbs : action.encode .testnet = .ok bs := by decide +kernel
  have hbs' : (action.normal .testnet).encode .testnet = .ok bs' := by decide +kernel
  have hlength : bs.length < 2 ^ 63 := by decide
  have hmain : decode .mainnet bs = .ok (.enact (.updateElectorate 7 (SortedMap.ofList
      [("iov1llllllllllllllllllllllllllllllllqz0cgk", 3),
       ("iov1qqqqqqqqqqqqqqqqqqqqqqqqqqqqqqqqvnwh0u", 2)]))) := by
    decide +kernel
  have hnormal : (action.normal .testnet).normal .testnet = action.normal .testnet := by
    obtain ⟨w, hw, -⟩ := encode_eq_ok.mp hbs
    exact normal_normal hw
  have hchanged : action.normal .testnet ≠ action := by
    intro heq
    rw [heq, hbs] at hbs'
    exact absurd (Except.ok.inj hbs') (by decide)
  obtain ⟨hread, -⟩ := decode_encode_for (q := .mainnet) hbs hlength
  obtain ⟨-, -, hsame, -⟩ := decode_encode_for (q := .testnet) hbs' (by decide)
  rw [hmain] at hread
  exact ⟨action, _, bs, bs', hbs, hlength, rfl, hmain, (Except.ok.inj hread).symm, hbs',
    hsame hnormal, hchanged⟩

end Action

end NameService
