import NameService.Proofs.Acceptance
import NameService.Proofs.Reading

/-
  Lists of participants, read and written entry by entry.

  The position of an entry is known to the reader, for its errors only. What is proved:
    1. `Participant.listOfWire_eq_ok` and `Participant.listOfWire_eq_error` — when a list of
       messages is read, as what, and which entry is blamed otherwise.
    2. `Participant.list_translated` — a list of messages is read if all addresses have 20
       bytes, and written back as it was; a list of participants is read back with the
       spelling of each address, or fails as the first address that cannot be read.
-/

namespace NameService

open Result

variable {network : Network}

/-! ## Single fields -/

theorem Check.fixed_eq_error {field : String} {length : Nat} {bs : Bytes} {e : Error} :
    fixed field length bs = .error e ↔ (bs = [] ∧ e = .missing field) ∨
      (bs ≠ [] ∧ bs.length ≠ length ∧ e = .invalidLength field length bs.length) := by
  by_cases hempty : bs = []
  · simp [fixed, present, hempty, eq_comm]
  · rw [fixed, present_eq_ok.mpr ⟨hempty, rfl⟩, ok_bind, exactly]
    split
    · next hlength => simp [hempty, hlength]
    · next hlength => simp [hempty, hlength, eq_comm]

namespace Address

theorem ofField_eq_ok {field text : String} {hash : Bytes} :
    ofField network field hash = .ok text ↔ Reads network hash text := by
  constructor
  · exact reads_of_ofField
  · intro h
    rw [ofField, Check.fixed_of_length h.1 (by decide), ok_bind]
    exact encode_eq_ok.mpr h

/-- A field with an address is refused for its bytes only. -/
theorem ofField_eq_error {field : String} {bs : Bytes} {e : Error} :
    ofField network field bs = .error e ↔ (bs = [] ∧ e = .missing field) ∨
      (bs ≠ [] ∧ bs.length ≠ length ∧ e = .invalidLength field length bs.length) := by
  rw [ofField, bind_eq_error, Check.fixed_eq_error]
  refine or_iff_left ?_
  -- a field of the right length is spelled
  intro h
  obtain ⟨hash, hhash, herror⟩ := h
  obtain ⟨-, hlength, rfl⟩ := Check.fixed_eq_ok.mp hhash
  rw [encode, if_pos hlength] at herror
  cases herror

end Address

namespace Participant

theorem ofWire_eq_ok {position : Nat} {m : Wire.Participant} {p : Participant} :
    ofWire network position m = .ok p ↔ Reads network m p := by
  constructor
  · exact reads_of_ofWire
  · intro h
    obtain ⟨haddress, hweight⟩ := h
    rw [ofWire, Address.ofField_eq_ok.mpr haddress, ok_bind, hweight]
    rfl

/-- A message is read as a participant at any position if its address has 20 bytes. -/
theorem exists_reads_iff {m : Wire.Participant} :
    (∃ p, Reads network m p) ↔ m.signature.length = Address.length := by
  constructor
  · intro h
    obtain ⟨p, ⟨hlength, -⟩, -⟩ := h
    exact hlength
  · intro hlength
    exact ⟨⟨_, m.weight⟩, ⟨hlength, rfl⟩, rfl⟩

/-! ## Lists -/

theorem listOfWire_eq_ok {ms : List Wire.Participant} {ps : List Participant} :
    listOfWire network ms = .ok ps ↔ List.Forall₂ (Reads network) ms ps := by
  constructor
  · exact reads_of_listOfWire
  · intro h
    apply mapM_eq_ok.mpr
    have hindexed : List.Forall₂ (fun e p => Reads network e.1 p) ms.zipIdx ps := by
      rw [← List.zipIdx_map_fst 0 ms] at h
      exact List.forall₂_map_left_iff.mp h
    exact hindexed.imp fun e p he => ofWire_eq_ok.mpr he

/-- The positions of messages do not matter for whether they are read. -/
theorem forall_zipIdx_iff {ms : List Wire.Participant} :
    (∀ e ∈ ms.zipIdx, ∃ p, ofWire network e.2 e.1 = .ok p) ↔
      ∀ m ∈ ms, m.signature.length = Address.length := by
  simp only [ofWire_eq_ok, exists_reads_iff]
  conv => rhs; rw [← List.zipIdx_map_fst 0 ms]
  rw [List.forall_mem_map]

theorem listOfWire_accepts (ms : List Wire.Participant) :
    Accepts (listOfWire network ms) (∀ m ∈ ms, m.signature.length = Address.length) := by
  have hentries : Accepts (listOfWire network ms)
      (∀ e ∈ ms.zipIdx, ∃ p, ofWire network e.2 e.1 = .ok p) :=
    Accepts.mapM (fun _ => Iff.rfl) ms.zipIdx
  exact hentries.congr forall_zipIdx_iff

/-- The first message whose address does not have 20 bytes is blamed, by its position. -/
theorem listOfWire_eq_error {ms : List Wire.Participant} {e : Error} :
    listOfWire network ms = .error e ↔ ∃ before m after, ms = before ++ m :: after ∧
      (∀ q ∈ before, q.signature.length = Address.length) ∧
        ofWire network before.length m = .error e := by
  rw [listOfWire, mapM_eq_error]
  constructor
  · intro h
    obtain ⟨front, ⟨m, position⟩, back, hsplit, hfront, hm⟩ := h
    obtain ⟨before, rest, rfl, rfl, hrest⟩ := List.zipIdx_eq_append_iff.mp hsplit
    obtain ⟨_, after, rfl, hhead, -⟩ := List.zipIdx_eq_cons_iff.mp hrest.symm
    obtain ⟨rfl, rfl⟩ := Prod.mk.inj hhead
    exact ⟨before, m, after, rfl, forall_zipIdx_iff.mp hfront, by simpa using hm⟩
  · intro h
    obtain ⟨before, m, after, rfl, hbefore, hm⟩ := h
    refine ⟨before.zipIdx, (m, before.length), after.zipIdx (before.length + 1), ?_,
      forall_zipIdx_iff.mpr hbefore, hm⟩
    rw [List.zipIdx_append, List.zipIdx_cons, Nat.zero_add]

theorem toWire_eq_error {p : Participant} {e : Error} :
    toWire network p = .error e ↔ Address.decodeFor network p.address = .error e :=
  bind_pure_eq_error

theorem exists_toWire_iff {p : Participant} : (∃ m, toWire network p = .ok m) ↔
    ∃ hash, Address.decodeFor network p.address = .ok hash := by
  constructor
  · intro h
    obtain ⟨m, hm⟩ := h
    exact ⟨_, (toWire_eq_ok.mp hm).1⟩
  · intro h
    obtain ⟨hash, hhash⟩ := h
    exact ⟨⟨hash, p.weight⟩, toWire_eq_ok.mpr ⟨hhash, rfl⟩⟩

theorem listToWire_accepts (ps : List Participant) : Accepts (listToWire network ps)
    (∀ p ∈ ps, ∃ hash, Address.decodeFor network p.address = .ok hash) :=
  Accepts.mapM (fun _ => exists_toWire_iff) ps

/-- The first participant whose address cannot be read is the reason of a failure. -/
theorem listToWire_eq_error {ps : List Participant} {e : Error} :
    listToWire network ps = .error e ↔ ∃ before p after, ps = before ++ p :: after ∧
      (∀ q ∈ before, ∃ hash, Address.decodeFor network q.address = .ok hash) ∧
        Address.decodeFor network p.address = .error e := by
  simp only [listToWire, mapM_eq_error, exists_toWire_iff, toWire_eq_error]

/-- Lists of participants are translated entry by entry, in both directions. -/
theorem list_translated (network : Network) :
    (∀ ms, (∃ ps, listOfWire network ms = .ok ps) ↔ ∀ m ∈ ms, m.signature.length = 20) ∧
    (∀ ms ps, listOfWire network ms = .ok ps →
      List.Forall₂ (fun m p => Address.encode network m.signature = .ok p.address ∧
        p.weight = m.weight) ms ps ∧
      listToWire network ps = .ok ms) ∧
    (∀ ms e, listOfWire network ms = .error e →
      ∃ before m after, ms = before ++ m :: after ∧
        (∀ q ∈ before, q.signature.length = 20) ∧ m.signature.length ≠ 20 ∧
        (m.signature = [] → e = .missing s!"participants.{before.length}.signature") ∧
        (m.signature ≠ [] → e =
          .invalidLength s!"participants.{before.length}.signature" 20 m.signature.length)) ∧
    (∀ ps ms, listToWire network ps = .ok ms →
      ∃ qs, listOfWire network ms = .ok qs ∧
        List.Forall₂ (fun p q => ∃ hash, Address.decodeFor network p.address = .ok hash ∧
          Address.encode network hash = .ok q.address ∧ q.weight = p.weight) ps qs) ∧
    ∀ ps e, listToWire network ps = .error e →
      ∃ before p after, ps = before ++ p :: after ∧
        (∀ q ∈ before, ∃ hash, Address.decodeFor network q.address = .ok hash) ∧
        Address.decodeFor network p.address = .error e := by
  refine ⟨fun ms => ?_, fun ms ps h => ?_, fun ms e h => ?_, fun ps ms h => ?_,
    fun ps e => listToWire_eq_error.mp⟩
  · exact listOfWire_accepts ms
  · have hreads := listOfWire_eq_ok.mp h
    constructor
    · exact hreads.imp fun m p hp => ⟨Address.encode_eq_ok.mpr hp.1, hp.2.symm⟩
    · apply mapM_eq_ok.mpr
      exact hreads.flip.imp fun p m hp => toWire_eq_ok.mpr ⟨hp.1.decodeFor, hp.2⟩
  · obtain ⟨before, m, after, hsplit, hbefore, hm⟩ := listOfWire_eq_error.mp h
    refine ⟨before, m, after, hsplit, hbefore, ?_⟩
    cases Address.ofField_eq_error.mp (bind_pure_eq_error.mp hm) with
    | inl hmissing =>
      obtain ⟨hempty, rfl⟩ := hmissing
      rw [hempty]
      exact ⟨by decide, fun _ => rfl, fun hne => absurd rfl hne⟩
    | inr hlength =>
      obtain ⟨hne, hlength, rfl⟩ := hlength
      exact ⟨hlength, fun hempty => absurd hempty hne, fun _ => rfl⟩
  · refine ⟨ps.map (normal network), listCodec.read_write h, ?_⟩
    rw [List.forall₂_map_right_iff, List.forall₂_same]
    intro p hp
    obtain ⟨hash, hhash⟩ := (listToWire_accepts ps).mp ⟨ms, h⟩ p hp
    refine ⟨hash, hhash, ?_, rfl⟩
    exact Address.encode_eq_ok.mpr
      ⟨Address.length_of_decodeFor hhash, (Address.canonical_of_decodeFor hhash).symm⟩

/-- A participant that is listed twice is kept twice; an entry of three bytes is blamed in
front of an empty one; a spelling in capitals is read back in lower case; and a failure is
that of the first of two texts that are no addresses. -/
theorem list_translated_four :
    let zeros : Bytes := List.replicate 20 0
    let spelling := "tiov1qqqqqqqqqqqqqqqqqqqqqqqqqqqqqqqqzx8n0d"
    let capitals := "TIOV1QQQQQQQQQQQQQQQQQQQQQQQQQQQQQQQQZX8N0D"
    let messages : List Wire.Participant := [⟨zeros, 5⟩, ⟨[1, 2, 3], 6⟩, ⟨[], 7⟩]
    let participants : List Participant := [⟨capitals, 5⟩, ⟨"nobody", 6⟩, ⟨"", 7⟩]
    (listOfWire .testnet [⟨zeros, 5⟩, ⟨zeros, 5⟩] = .ok [⟨spelling, 5⟩, ⟨spelling, 5⟩] ∧
      listToWire .testnet [⟨spelling, 5⟩, ⟨spelling, 5⟩] = .ok [⟨zeros, 5⟩, ⟨zeros, 5⟩]) ∧
    (listOfWire .testnet messages = .error (.invalidLength "participants.1.signature" 20 3) ∧
      ∃ before m after, messages = before ++ m :: after ∧
        (∀ q ∈ before, q.signature.length = 20) ∧ m.signature.length ≠ 20) ∧
    (listToWire .testnet [⟨capitals, 5⟩, ⟨spelling, 5⟩] = .ok [⟨zeros, 5⟩, ⟨zeros, 5⟩] ∧
      ∃ qs, listOfWire .testnet [⟨zeros, 5⟩, ⟨zeros, 5⟩] = .ok qs ∧ qs.length = 2) ∧
    listToWire .testnet participants = .error (.invalidAddress (.unreadable "nobody")) ∧
      ∃ before p after, participants = before ++ p :: after ∧
        Address.decodeFor .testnet p.address = .error (.invalidAddress (.unreadable "nobody")) := by
  intro zeros spelling capitals messages participants
  obtain ⟨-, hread, hblamed, hwritten, hreason⟩ := list_translated .testnet
  have hpair : listOfWire .testnet [⟨zeros, 5⟩, ⟨zeros, 5⟩] =
      .ok [⟨spelling, 5⟩, ⟨spelling, 5⟩] := by
    decide +kernel
  have hmessages : listOfWire .testnet messages =
      .error (.invalidLength "participants.1.signature" 20 3) := by
    decide +kernel
  have hcapitals : listToWire .testnet [⟨capitals, 5⟩, ⟨spelling, 5⟩] =
      .ok [⟨zeros, 5⟩, ⟨zeros, 5⟩] := by
    decide +kernel
  have hparticipants : listToWire .testnet participants =
      .error (.invalidAddress (.unreadable "nobody")) := by
    decide +kernel
  obtain ⟨before, m, after, hsplit, hbefore, hm, -⟩ := hblamed _ _ hmessages
  obtain ⟨qs, hqs, hentries⟩ := hwritten _ _ hcapitals
  obtain ⟨front, p, back, hlist, -, hp⟩ := hreason _ _ hparticipants
  exact ⟨⟨hpair, (hread _ _ hpair).2⟩, ⟨hmessages, before, m, after, hsplit, hbefore, hm⟩,
    ⟨hcapitals, qs, hqs, hentries.length_eq.symm⟩, hparticipants, front, p, back, hlist, hp⟩

end Participant

end NameService
