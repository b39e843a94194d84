import NameService.Address
import NameService.Wire.Governance

/-
  Participants of multisignature contracts. A failure in a list that is read
  from the wire names the position of the entry, counted from 0.
-/

namespace NameService

/-- A participant and the weight of its signature. -/
structure Participant where
  address : String
  weight : UInt32
  deriving DecidableEq, Repr

namespace Participant

def toWire (network : Network) (p : Participant) : Except Error Wire.Participant := do
  let signature ← Address.decodeFor network p.address
  return ⟨signature, p.weight⟩

/-- The participant of a wire message at a position of a list. -/
def ofWire (network : Network) (position : Nat) (m : Wire.Participant) :
    Except Error Participant := do
  let address ← Address.ofField network s!"participants.{position}.signature" m.signature
  return ⟨address, m.weight⟩

def listToWire (network : Network) (ps : List Participant) :
    Except Error (List Wire.Participant) :=
  ps.mapM (toWire network)

def listOfWire (network : Network) (ms : List Wire.Participant) :
    Except Error (List Participant) :=
  ms.zipIdx.mapM fun (m, position) => ofWire network position m

end Participant

end NameService
