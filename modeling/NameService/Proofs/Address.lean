import NameService.Proofs.Bech32.Spelling
import NameService.Proofs.Soundness

/-
  Hashes and their spellings.

  A network spells a hash in one way and reads it from more than one. What is proved:
    1. `Address.hash_round_trip` — every hash of 20 bytes has a spelling on each network,
       which is read as this hash on this network, in capitals as well, and on no other;
       every key has an address, of exactly the chains of its network.
    2. `Address.decodeFor_iff_spell` — a text is read as a hash exactly if, letter case
       aside, it is the spelling of the hash, or carries one symbol more in front of its
       checksum.
    3. `Address.spellings_of_hash` — so a valid text is the spelling of what is read from
       it, up to case, exactly if it has the length of the spelling, and each hash has 32
       further texts, longer by one symbol.
-/

namespace NameService

open Result

namespace Address

variable {network : Network} {text : String} {hash : Bytes}

/-! ## Single texts -/

theorem isValid_iff :
    isValid text = true ↔ ∃ network hash, decode text = .ok ⟨Network.hrp network, hash⟩ ∧
      hash.length = 20 := by
  rw [isValid]
  cases hdecode : decode text with
  | error e => simp
  | ok decoded =>
    obtain ⟨hrp, data⟩ := decoded
    simp only [Bool.and_eq_true, Network.isSome_ofHrp?, beq_iff_eq, Except.ok.injEq,
      Decoded.mk.injEq]
    constructor
    · intro h
      obtain ⟨⟨n, hn⟩, hlength⟩ := h
      exact ⟨n, data, ⟨hn.symm, rfl⟩, hlength⟩
    · intro h
      obtain ⟨n, bs, ⟨hhrp, hdata⟩, hlength⟩ := h
      exact ⟨⟨n, hhrp.symm⟩, hdata ▸ hlength⟩

/-- An address of one network is no address of another, and is refused for its prefix. -/
theorem decodeFor_of_ne {other : Network} (h : decode text = .ok ⟨network.hrp, hash⟩)
    (hother : other ≠ network) :
    decodeFor other text = .error (.invalidAddress (.wrongPrefix text other.hrp network.hrp)) := by
  have hprefix : network.hrp ≠ other.hrp := fun hhrp => hother (Network.hrp_inj hhrp).symm
  rw [decodeFor, h, ok_bind, if_pos hprefix]
  rfl

/-! ## Round trip -/

/-- A text is the spelling of a hash on a network: it is written for the hash, and read
as it in either case, for this network and no other. -/
structure Denotes (network : Network) (hash : Bytes) (text : String) : Prop where
  written : encode network hash = .ok text
  read : decode text = .ok ⟨network.hrp, hash⟩
  read_upper : decode text.toUpper = .ok ⟨network.hrp, hash⟩
  read_for : decodeFor network text = .ok hash
  refused_for : ∀ other, other ≠ network →
    decodeFor other text = .error (.invalidAddress (.wrongPrefix text other.hrp network.hrp))
  valid : isValid text = true

theorem denotes_of_encode (h : encode network hash = .ok text) : Denotes network hash text := by
  have hread_for := (encode_eq_ok.mp h).decodeFor
  obtain ⟨hlength, hholds⟩ := decodeFor_iff_holds.mp hread_for
  have hread := decode_eq_ok.mpr hholds
  exact {
    written := h
    read := hread
    read_upper := decode_eq_ok.mpr hholds.toUpper
    read_for := hread_for
    refused_for := fun other hother => decodeFor_of_ne hread hother
    valid := isValid_iff.mpr ⟨network, hash, hread, hlength⟩ }

theorem exists_denotes (network : Network) (h : hash.length = 20) :
    ∃ text, Denotes network hash text :=
  ⟨_, denotes_of_encode (encode_eq_ok.mpr ⟨h, rfl⟩)⟩

/-- A spelling tells its network and its hash. -/
theorem encode_inj {network' : Network} {hash' : Bytes} (h : encode network hash = .ok text)
    (h' : encode network' hash' = .ok text) : network = network' ∧ hash = hash' := by
  have hread := (denotes_of_encode h).read
  rw [(denotes_of_encode h').read] at hread
  obtain ⟨hhrp, hhash⟩ := Decoded.mk.inj (Except.ok.inj hread)
  exact ⟨Network.hrp_inj hhrp.symm, hhash.symm⟩

/-- An address is one of exactly the chains that share its network. -/
theorem Denotes.chains (h : Denotes network hash text) (chainId : String) :
    (∃ bs, decodeFor (Network.ofChainId chainId) text = .ok bs) ↔
      Network.ofChainId chainId = network := by
  constructor
  · intro hread
    obtain ⟨bs, hbs⟩ := hread
    by_contra hother
    rw [h.refused_for _ hother] at hbs
    cases hbs
  · intro hsame
    rw [hsame]
    exact ⟨hash, h.read_for⟩

/-- Every hash of 20 bytes is spelled on every network, no two alike, and every key has an
address on every chain, which is one of the chains of that network only. -/
theorem hash_round_trip :
    (∀ (network : Network) (hash : Bytes), hash.length = 20 →
      ∃ text, Denotes network hash text) ∧
    (∀ (network network' : Network) (hash hash' : Bytes) (text : String),
      encode network hash = .ok text → encode network' hash' = .ok text →
        network = network' ∧ hash = hash') ∧
    (∀ (chainId : String) (key : PublicKey),
      ∃ text, ofKey (Network.ofChainId chainId) key = .ok text ∧ isValid text = true ∧
        ∀ chainId', (∃ hash, decodeFor (Network.ofChainId chainId') text = .ok hash) ↔
          Network.ofChainId chainId' = Network.ofChainId chainId) := by
  refine ⟨fun network hash h => exists_denotes network h, fun _ _ _ _ _ => encode_inj,
    fun chainId key => ?_⟩
  have hlength : ((Sha256.hash (Bytes.ofText (keyHeader key.algorithm) ++ key.data)).take
      length).length = 20 := by
    rw [List.length_take, Sha256.length_hash]
    rfl
  obtain ⟨text, htext⟩ := exists_denotes (Network.ofChainId chainId) hlength
  exact ⟨text, htext.written, htext.valid, htext.chains⟩

/-- One hash is spelled on both networks. -/
theorem hash_round_trip_two_networks :
    ∃ hash : Bytes, hash.length = 20 ∧
      Denotes .testnet hash "tiov17m9dug55pryn525drqwk9m7wgmlkp5ss4j2mky" ∧
      Denotes .mainnet hash "iov17m9dug55pryn525drqwk9m7wgmlkp5ssm8rlk4" := by
  let hash : Bytes := [246, 202, 222, 34, 148, 8, 201, 58, 42, 141, 24, 29, 98, 239, 206, 70, 255,
    96, 210, 16]
  obtain ⟨hspelled, -, -⟩ := hash_round_trip
  obtain ⟨text, htext⟩ := hspelled .testnet hash rfl
  obtain ⟨text', htext'⟩ := hspelled .mainnet hash rfl
  have hvalue : encode .testnet hash = .ok "tiov17m9dug55pryn525drqwk9m7wgmlkp5ss4j2mky" := by
    decide +kernel
  have hvalue' : encode .mainnet hash = .ok "iov17m9dug55pryn525drqwk9m7wgmlkp5ssm8rlk4" := by
    decide +kernel
  obtain rfl := Except.ok.inj (htext.written.symm.trans hvalue)
  obtain rfl := Except.ok.inj (htext'.written.symm.trans hvalue')
  exact ⟨hash, rfl, htext, htext'⟩

/-! ## Further spellings -/

/-- The spelling of a hash with one symbol more in front of its checksum. -/
def padded (network : Network) (hash : Bytes) (extra : Bech32.Symbol) : String :=
  Bech32.spell network.hrp (Bech32.symbolsOfBytes hash ++ [extra])

/-- The texts that are read as a hash: letter case aside, its spelling and the padded ones. -/
theorem decodeFor_iff_spell :
    decodeFor network text = .ok hash ↔
      hash.length = 20 ∧ Bech32.mixedCase text.toList = false ∧
        (encode network hash = .ok text.toLower ∨
          ∃ extra, text.toLower = padded network hash extra) := by
  rw [decodeFor_iff_holds]
  refine and_congr_right fun hlength => ?_
  have hhrp : network.hrp.length ≤ 4 := by cases network <;> decide
  have hmax : Bech32.maxLength = 1023 := rfl
  have hencode : encode network hash = .ok text.toLower ↔
      text.toLower = Bech32.encode network.hrp hash := by
    rw [encode_eq_ok, Reads, eq_comm (b := text.toLower)]
    exact and_iff_right hlength
  rw [hencode]
  exact Bech32.holds_iff_of_even (by cases network <;> decide) (by cases network <;> decide)
    (by rw [hlength]) (by omega)

theorem length_of_encode (h : encode network hash = .ok text) :
    text.length = network.hrp.length + 39 := by
  obtain ⟨hlength, rfl⟩ := encode_eq_ok.mp h
  have hlength : hash.length = 20 := hlength
  have heven : hash.length % 5 = 0 := by rw [hlength]
  have hcount := Bech32.length_symbolsOfBytes_of_even heven
  rw [Bech32.length_encode]
  omega

theorem length_padded (h : hash.length = 20) (extra : Bech32.Symbol) :
    (padded network hash extra).length = network.hrp.length + 40 := by
  have heven : hash.length % 5 = 0 := by rw [h]
  have hcount := Bech32.length_symbolsOfBytes_of_even heven
  rw [padded, Bech32.length_spell, List.length_append, List.length_singleton]
  omega

theorem padded_inj {extra extra' : Bech32.Symbol}
    (h : padded network hash extra = padded network hash extra') : extra = extra' :=
  List.singleton_inj.mp (List.append_cancel_left (Bech32.spell_inj h))

/-- Of the texts of a hash, the spelling is told by its length. -/
theorem encode_iff_length (h : decodeFor network text = .ok hash) :
    encode network hash = .ok text.toLower ↔ text.length = network.hrp.length + 39 := by
  obtain ⟨hlength, -, htext⟩ := decodeFor_iff_spell.mp h
  rw [← Bech32.length_toLower text]
  cases htext with
  | inl hplain => exact iff_of_true hplain (length_of_encode hplain)
  | inr hextra =>
    obtain ⟨extra, hpadded⟩ := hextra
    have hcount : text.toLower.length = network.hrp.length + 40 := by
      rw [hpadded, length_padded hlength]
    refine iff_of_false (fun hplain => ?_) (by omega)
    have hother := length_of_encode hplain
    omega

theorem decodeFor_padded (h : hash.length = 20) (extra : Bech32.Symbol) :
    decodeFor network (padded network hash extra) = .ok hash := by
  have hlower : (padded network hash extra).toLower = padded network hash extra :=
    Bech32.toLower_spell (by cases network <;> decide) _
  exact decodeFor_iff_spell.mpr ⟨h, Bech32.mixedCase_of_toLower_eq hlower, .inr ⟨extra, hlower⟩⟩

/-- A valid text is, up to case, the spelling of what is read from it or has one symbol more,
and its length tells which. Only texts of the length of the spelling are bound to differ in
case alone if they are read alike; each hash has 32 longer texts, one for each symbol. -/
theorem spellings_of_hash {hrp : String} (hvalid : isValid text = true)
    (hread : decode text = .ok ⟨hrp, hash⟩) :
    ∃ network : Network, network.hrp = hrp ∧
      (encode network hash = .ok text.toLower ↔ text.length = hrp.length + 39) ∧
      (encode network hash = .ok text.toLower ∨
        ∃ extra, text.toLower = padded network hash extra) ∧
      (∀ other, decodeFor network other = .ok hash → text.length = hrp.length + 39 →
        other.length = hrp.length + 39 → other.toLower = text.toLower) ∧
      (∀ extra, decodeFor network (padded network hash extra) = .ok hash) ∧
      Function.Injective (padded network hash) := by
  obtain ⟨network, hash', hread', hlength⟩ := isValid_iff.mp hvalid
  obtain ⟨rfl, rfl⟩ := Decoded.mk.inj (Except.ok.inj (hread.symm.trans hread'))
  have hread_for := decodeFor_iff_holds.mpr ⟨hlength, decode_eq_ok.mp hread⟩
  refine ⟨network, rfl, encode_iff_length hread_for, (decodeFor_iff_spell.mp hread_for).2.2, ?_,
    decodeFor_padded hlength, fun _ _ => padded_inj⟩
  intro other hother hplain hplain'
  have hspelling := (encode_iff_length hread_for).mpr hplain
  have hspelling' := (encode_iff_length hother).mpr hplain'
  exact Except.ok.inj (hspelling'.symm.trans hspelling)

/-- A text of the length of the spelling, and a longer one of the same hash. -/
theorem spellings_of_hash_two :
    ∃ hash : Bytes,
      isValid "tiov17m9dug55pryn525drqwk9m7wgmlkp5ss4j2mky" = true ∧
      decode "tiov17m9dug55pryn525drqwk9m7wgmlkp5ss4j2mky" = .ok ⟨"tiov", hash⟩ ∧
      encode .testnet hash = .ok "tiov17m9dug55pryn525drqwk9m7wgmlkp5ss4j2mky" ∧
      decodeFor .testnet "tiov17m9dug55pryn525drqwk9m7wgmlkp5ssq4h9az6" = .ok hash := by
  let hash : Bytes := [246, 202, 222, 34, 148, 8, 201, 58, 42, 141, 24, 29, 98, 239, 206, 70, 255,
    96, 210, 16]
  have hvalid : isValid "tiov17m9dug55pryn525drqwk9m7wgmlkp5ss4j2mky" = true := by decide +kernel
  have hread : decode "tiov17m9dug55pryn525drqwk9m7wgmlkp5ss4j2mky" = .ok ⟨"tiov", hash⟩ := by
    decide +kernel
  obtain ⟨network, hhrp, hspelling, -, -, hpadded, -⟩ := spellings_of_hash hvalid hread
  obtain rfl : network = .testnet := Network.hrp_inj hhrp
  have hlower : "tiov17m9dug55pryn525drqwk9m7wgmlkp5ss4j2mky".toLower =
      "tiov17m9dug55pryn525drqwk9m7wgmlkp5ss4j2mky" := by decide +kernel
  have hlonger : padded .testnet hash 0 = "tiov17m9dug55pryn525drqwk9m7wgmlkp5ssq4h9az6" := by
    decide +kernel
  rw [hlower] at hspelling
  refine ⟨hash, hvalid, hread, hspelling.mpr (by decide +kernel), ?_⟩
  rw [← hlonger]
  exact hpadded 0

/-- A valid text that is not the spelling of what is read from it, in either case: the hash
has another one. -/
theorem second_spelling :
    isValid "tiov17m9dug55pryn525drqwk9m7wgmlkp5ssq4h9az6" = true ∧
      ∃ hash : Bytes,
        decode "tiov17m9dug55pryn525drqwk9m7wgmlkp5ssq4h9az6" = .ok ⟨"tiov", hash⟩ ∧
        encode .testnet hash = .ok "tiov17m9dug55pryn525drqwk9m7wgmlkp5ss4j2mky" ∧
        decodeFor .testnet "tiov17m9dug55pryn525drqwk9m7wgmlkp5ss4j2mky" = .ok hash ∧
        decodeFor .testnet "tiov17m9dug55pryn525drqwk9m7wgmlkp5ssq4h9az6" = .ok hash ∧
        "tiov17m9dug55pryn525drqwk9m7wgmlkp5ss4j2mky" ≠
          "tiov17m9dug55pryn525drqwk9m7wgmlkp5ssq4h9az6".toLower := by
  refine ⟨by decide +kernel, [246, 202, 222, 34, 148, 8, 201, 58, 42, 141, 24, 29, 98, 239, 206,
    70, 255, 96, 210, 16], ?_⟩
  decide +kernel

end Address

end NameService
