import NameService.Check

/-
  Ids: numbers in eight bytes, most significant first, so that the order of the
  bytes is the order of the numbers; and versioned ids, which carry a version
  in four more bytes.
-/

namespace NameService

namespace Id

def length : Nat := 8

def encode (id : UInt64) : Bytes :=
  Bytes.bigEndian length id.toNat

/-- The id in a byte field of the given name. -/
def decodeAs (field : String) (bs : Bytes) : Except Error UInt64 := do
  let bs ← Check.exactly field length bs
  return UInt64.ofNat (Bytes.toNat bs)

def decode (bs : Bytes) : Except Error UInt64 :=
  decodeAs "id" bs

/-- The id in a byte field that must be there. -/
def ofField (field : String) (bs : Bytes) : Except Error UInt64 := do
  decodeAs field (← Check.present field bs)

end Id

structure VersionedId where
  id : UInt64
  version : UInt32
  deriving DecidableEq, Repr

namespace VersionedId

def length : Nat := 12

def encode (v : VersionedId) : Bytes :=
  Bytes.bigEndian 8 v.id.toNat ++ Bytes.bigEndian 4 v.version.toNat

def decode (bs : Bytes) : Except Error VersionedId := do
  let bs ← Check.exactly "versioned id" length bs
  return ⟨UInt64.ofNat (Bytes.toNat (bs.take 8)), UInt32.ofNat (Bytes.toNat (bs.drop 8))⟩

end VersionedId

end NameService
