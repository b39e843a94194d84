/-
  Networks: the one main chain and all others, told apart by the prefix of
  their addresses.
-/

namespace NameService

inductive Network where
  | mainnet
  | testnet
  deriving DecidableEq, Repr

namespace Network

def mainnetChainId : String := "iov-mainnet"

/-- The human readable part of the network's addresses. -/
def hrp : Network → String
  | mainnet => "iov"
  | testnet => "tiov"

/-- The network of a human readable part, in exactly that spelling. -/
def ofHrp? (hrp : String) : Option Network :=
  if hrp = "iov" then some mainnet
  else if hrp = "tiov" then some testnet
  else none

def ofChainId (chainId : String) : Network :=
  if chainId = mainnetChainId then mainnet else testnet

theorem ofHrp?_hrp (n : Network) : ofHrp? n.hrp = some n := by
  cases n <;> rfl

theorem hrp_inj {n m : Network} (h : n.hrp = m.hrp) : n = m := by
  have hread := ofHrp?_hrp n
  rw [h, ofHrp?_hrp] at hread
  exact (Option.some.inj hread).symm

/-- Only the human readable parts of networks are read. -/
theorem isSome_ofHrp? {hrp : String} : (ofHrp? hrp).isSome = true ↔ ∃ n : Network, n.hrp = hrp := by
  constructor
  · intro h
    unfold ofHrp? at h
    split at h
    · next hmain => exact ⟨mainnet, hmain.symm⟩
    · split at h
      · next htest => exact ⟨testnet, htest.symm⟩
      · cases h
  · intro h
    obtain ⟨n, rfl⟩ := h
    rw [ofHrp?_hrp]
    rfl

end Network

end NameService
