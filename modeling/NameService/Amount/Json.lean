import NameService.Amount
import NameService.Id
import NameService.Json.Fields

/-
  The JSON forms of amounts and of versioned ids: `toJson` writes a value, and
  `ofJson` reads it.
-/

namespace NameService

open Json

namespace Amount

def toJson (a : Amount) : Json :=
  .object [
    ("quantity", .text a.quantity),
    ("fractionalDigits", ofUInt32 a.fractionalDigits),
    ("tokenTicker", .text a.ticker)]

def ofJson : Reader Amount :=
  readRecord do
    let quantity ← required "quantity" readText
    let fractionalDigits ← required "fractionalDigits" readUInt32
    let ticker ← required "tokenTicker" readText
    return ⟨quantity, fractionalDigits, ticker⟩

end Amount

namespace VersionedId

def toJson (v : VersionedId) : Json :=
  .object [("id", ofId v.id), ("version", ofUInt32 v.version)]

def ofJson : Reader VersionedId :=
  readRecord do
    let id ← required "id" readId
    let version ← required "version" readUInt32
    return ⟨id, version⟩

end VersionedId

end NameService
