import NameService.Decimal
import NameService.Hex
import NameService.Json.Value
import NameService.SortedMap

/-
  Reading values of the model from JSON values, and writing the leaves.

  A reader takes a JSON value and gives nothing on a wrong form. A record is
  read field by field, either from the members of an object, in any order and
  with any other members ignored, or from the items of an array, in the order
  of the fields and without any item left over.

  A record inside a tagged union is read with the tag taken away first: from
  the member of that name, or from the head of the array.
-/

namespace NameService.Json

abbrev Reader (α : Type) := Json → Option α

/-! ## Leaves -/

def readText : Reader String
  | .text s => some s
  | _ => none

def readBool : Reader Bool
  | .bool b => some b
  | _ => none

def readInteger (least greatest : Int) : Reader Int
  | .integer n => if least ≤ n ∧ n ≤ greatest then some n else none
  | _ => none

def readUInt32 : Reader UInt32 := fun j =>
  (readInteger 0 (UInt32.size - 1) j).map fun n => UInt32.ofNat n.toNat

def readInt32 : Reader Int32 := fun j =>
  (readInteger Int32.minValue.toInt Int32.maxValue.toInt j).map Int32.ofInt

def readInt64 : Reader Int64 := fun j =>
  (readInteger Int64.minValue.toInt Int64.maxValue.toInt j).map Int64.ofInt

/-- Reads an id: a 64-bit integer, or the numeral of one, which may carry a plus
sign and leading zeros. -/
def readId : Reader UInt64
  | .integer n => if 0 ≤ n ∧ n < UInt64.size then some (UInt64.ofNat n.toNat) else none
  | .text s =>
    match Decimal.ofPlusText? s with
    | some n => if n < UInt64.size then some (UInt64.ofNat n) else none
    | none => none
  | _ => none

/-- Reads a byte string: hexadecimal digits, which may stand behind one `0x`. -/
def readBytes : Reader Bytes
  | .text s =>
    match s.toList with
    | '0' :: 'x' :: digits => Hex.ofDigits? digits
    | digits => Hex.ofDigits? digits
  | _ => none

def readList {α : Type} (read : Reader α) : Reader (List α)
  | .array items => items.mapM read
  | _ => none

/-- Reads an object as a map from its member names. -/
def readMap {α : Type} (read : Reader α) : Reader (SortedMap α)
  | .object members =>
    (members.mapM fun (m : String × Json) => (read m.2).map fun v => (m.1, v)).map SortedMap.ofList
  | _ => none

/-- Writes an id, as a numeral in a text so that no reader rounds it. -/
def ofId (id : UInt64) : Json :=
  .text (Decimal.toText id.toNat)

def ofBytes (bs : Bytes) : Json :=
  .text (Hex.encode bs)

def ofUInt32 (n : UInt32) : Json :=
  .integer n.toNat

def ofInt32 (n : Int32) : Json :=
  .integer n.toInt

def ofInt64 (n : Int64) : Json :=
  .integer n.toInt

def ofList {α : Type} (write : α → Json) (values : List α) : Json :=
  .array (values.map write)

def ofMap {α : Type} (write : α → Json) (m : SortedMap α) : Json :=
  .object (m.entries.map fun e => (e.1, write e.2))

/-! ## Records -/

/-- Where the fields of a record are still to be taken from. -/
inductive Fields where
  | named (members : List (String × Json))
  | listed (items : List Json)

/-- Takes fields, one after the other. -/
abbrev FieldReader (α : Type) := StateT Fields Option α

/-- Takes the value of the next field, if there is one. -/
def takeField (name : String) : FieldReader (Option Json)
  | .named members => some (members.lookup name, .named members)
  | .listed [] => some (none, .listed [])
  | .listed (item :: rest) => some (some item, .listed rest)

/-- Takes a field that must be there. -/
def required {α : Type} (name : String) (read : Reader α) : FieldReader α := fun fields =>
  match takeField name fields with
  | some (some item, rest) => (read item).map fun v => (v, rest)
  | _ => none

/-- Takes a field that may be absent or null. -/
def optionalField {α : Type} (name : String) (read : Reader α) : FieldReader (Option α) :=
  fun fields =>
    match takeField name fields with
    | some (none, rest) => some (none, rest)
    | some (some .null, rest) => some (none, rest)
    | some (some item, rest) => (read item).map fun v => (some v, rest)
    | none => none

/-- Takes a field that has a value of its own when it is absent. -/
def defaulted {α : Type} (name : String) (value : α) (read : Reader α) : FieldReader α :=
  fun fields =>
    match takeField name fields with
    | some (none, rest) => some (value, rest)
    | some (some item, rest) => (read item).map fun v => (v, rest)
    | none => none

/-- Takes all fields of a record; no listed item may be left over. -/
def Fields.read {α : Type} (fields : Fields) (reader : FieldReader α) : Option α :=
  match reader fields with
  | some (v, .named _) => some v
  | some (v, .listed []) => some v
  | _ => none

def fields? : Json → Option Fields
  | .object members => some (.named members)
  | .array items => some (.listed items)
  | _ => none

def readRecord {α : Type} (reader : FieldReader α) : Reader α := fun j =>
  match fields? j with
  | some fields => fields.read reader
  | none => none

/-! ## Tags -/

/-- Reads the tag of a kind: its name or, where kinds may be numbered, its
position among all of them. -/
def readKind {κ : Type} (all : List κ) (name : κ → String) (numbered : Bool) : Reader κ
  | .text s => all.find? fun k => name k == s
  | .integer n => if numbered && 0 ≤ n then all[n.toNat]? else none
  | _ => none

/-- Reads a choice without fields: its name, or an object with the name as its
one member, whose value is then void. -/
def readChoice {κ : Type} (all : List κ) (name : κ → String) (void : Json → Bool) : Reader κ
  | .text s => all.find? fun k => name k == s
  | .object [(s, j)] => if void j then all.find? fun k => name k == s else none
  | _ => none

def isNull : Json → Bool
  | .null => true
  | _ => false

/-- Null and the empty object are void. -/
def isEmpty : Json → Bool
  | .null => true
  | .object [] => true
  | _ => false

/-- A tagged value: what its tag is, and the fields beside it. -/
def tagged? (tag : String) : Json → Option (Json × Fields)
  | .object members => (members.lookup tag).map fun t => (t, .named members)
  | .array (t :: rest) => some (t, .listed rest)
  | _ => none

end NameService.Json
