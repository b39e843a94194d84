import NameService.Wire.Item

/-
  Messages by description: the fields of a message type are listed once, and
  writing and reading both follow the list.

  A `Field` describes one field: what it holds when it is absent, which entries
  it is written as, and what it holds after one more entry has been read. A
  `Layout` is a row of fields, and a `Message` is a type whose values are such
  rows.

  Writing goes through the fields in the order of the layout. A scalar is
  written only if it differs from its default; an embedded message and every
  element of a repeated field are written even when they are empty.

  Reading goes through the items in their order. The last entry of a scalar
  counts; a repeated field collects its entries; an embedded message that
  occurs again is merged into the first; of the cases of a union the last
  counts, merged into the one before if that is of the same case. An item with
  an unknown tag is skipped, and a known tag with a value of another form is
  refused. Both embedded messages and skipped items use up levels of nesting,
  of which a message has 100.
-/

namespace NameService.Wire

/-! ## Descriptions -/

/-- How values of one type stand in one field. -/
structure Scalar (β : Type) where
  default : β
  toValue : β → Value
  ofValue? : Value → Option β

namespace Scalar

def int64 : Scalar Int64 where
  default := 0
  toValue n := .varint n.toUInt64.toNat
  ofValue?
    | .varint n => some (UInt64.ofNat n).toInt64
    | .block _ => none

/-- A signed 32-bit integer: negative ones are written in 64 bits, and reading
keeps the low 32 bits. -/
def int32 : Scalar Int32 where
  default := 0
  toValue n := .varint n.toInt64.toUInt64.toNat
  ofValue?
    | .varint n => some (UInt32.ofNat n).toInt32
    | .block _ => none

/-- An unsigned 32-bit integer; reading keeps the low 32 bits. -/
def uint32 : Scalar UInt32 where
  default := 0
  toValue n := .varint n.toNat
  ofValue?
    | .varint n => some (UInt32.ofNat n)
    | .block _ => none

/-- A truth value; any integer but 0 is true. -/
def bool : Scalar Bool where
  default := false
  toValue b := .varint b.toNat
  ofValue?
    | .varint n => some (n != 0)
    | .block _ => none

def text : Scalar String where
  default := ""
  toValue s := .block (Bytes.ofText s)
  ofValue?
    | .block bs => Bytes.toText? bs
    | .varint _ => none

def bytes : Scalar Bytes where
  default := []
  toValue bs := .block bs
  ofValue?
    | .block bs => some bs
    | .varint _ => none

end Scalar

/-- One field of a message, of values in `β`. -/
structure Field (β : Type) where
  /-- The tags of its entries: one, or those of all cases of a union. -/
  tags : List Nat
  /-- What it holds when there is no entry of it. -/
  absent : β
  /-- The entries that it is written as. -/
  write : β → List Entry
  /-- What it holds after one more entry, at a level of nesting below which
  the given number of levels are left. -/
  read : Nat → Entry → β → Option β

/-- A row of fields; the row of their values has the type of the index. -/
inductive Layout : Type → Type 1 where
  | done : Layout Unit
  | field {β R : Type} (f : Field β) (rest : Layout R) : Layout (β × R)

/-- A type of messages: its layout, and its values as rows. -/
class Message (α : Type) where
  Row : Type
  layout : Layout Row
  toRow : α → Row
  ofRow : Row → α

/-! ## Writing and reading -/

namespace Layout

def absent : {R : Type} → Layout R → R
  | _, done => ()
  | _, field f rest => (f.absent, rest.absent)

def write : {R : Type} → Layout R → R → List Entry
  | _, done, _ => []
  | _, field f rest, (v, vs) => f.write v ++ rest.write vs

/-- The row after one more item. -/
def step (levels : Nat) (item : Item) : {R : Type} → Layout R → R → Option R
  | _, done, row => if item.depth ≤ levels then some row else none
  | _, field f rest, (v, vs) =>
    if item.tag ∈ f.tags then
      match item with
      | .entry e => (f.read levels e v).map fun v => (v, vs)
      | .foreign _ _ => none
    else (rest.step levels item vs).map fun vs => (v, vs)

def tags : {R : Type} → Layout R → List Nat
  | _, done => []
  | _, field f rest => f.tags ++ rest.tags

end Layout

namespace Message

variable {α : Type} [Message α]

def empty : α :=
  ofRow (layout (α := α)).absent

def entries (m : α) : List Entry :=
  layout.write (toRow m)

def encode (m : α) : Bytes :=
  entryBytes (entries m)

/-- The message with the fields in further bytes merged into it. -/
def merge (levels : Nat) (bs : Bytes) (m : α) : Option α := do
  let items ← items? bs
  let row ← items.foldlM (fun row item => layout.step levels item row) (toRow m)
  some (ofRow row)

/-- The same for a message inside another one, which is one level deeper. -/
def mergeEmbedded : Nat → Value → α → Option α
  | levels + 1, .block bs, m => merge levels bs m
  | _, _, _ => none

def maxLevels : Nat := 100

def decode? (bs : Bytes) : Option α :=
  merge maxLevels bs empty

end Message

/-! ## Fields -/

namespace Field

def scalar {β : Type} [DecidableEq β] (tag : Nat) (s : Scalar β) : Field β where
  tags := [tag]
  absent := s.default
  write v := if v = s.default then [] else [⟨tag, s.toValue v⟩]
  read _ e _ := s.ofValue? e.value

/-- An embedded message that may be absent. -/
def message {α : Type} [Message α] (tag : Nat) : Field (Option α) where
  tags := [tag]
  absent := none
  write
    | none => []
    | some m => [⟨tag, .block (Message.encode m)⟩]
  read levels e current :=
    (Message.mergeEmbedded levels e.value (current.getD Message.empty)).map some

def messages {α : Type} [Message α] (tag : Nat) : Field (List α) where
  tags := [tag]
  absent := []
  write ms := ms.map fun m => ⟨tag, .block (Message.encode m)⟩
  read levels e current :=
    (Message.mergeEmbedded levels e.value Message.empty).map fun m => current ++ [m]

def blocks (tag : Nat) : Field (List Bytes) where
  tags := [tag]
  absent := []
  write bss := bss.map fun bs => ⟨tag, .block bs⟩
  read _ e current :=
    match e.value with
    | .block bs => some (current ++ [bs])
    | .varint _ => none

/-- A byte string that may be absent, which differs from an empty one. -/
def block (tag : Nat) : Field (Option Bytes) where
  tags := [tag]
  absent := none
  write
    | none => []
    | some bs => [⟨tag, .block bs⟩]
  read _ e _ :=
    match e.value with
    | .block bs => some (some bs)
    | .varint _ => none

end Field

/-! ## Unions -/

/-- One case of a union: its tag, the block that a value of this case is
written as, and the value after a block with this tag. -/
structure Case (σ : Type) where
  tag : Nat
  write : σ → Option Bytes
  read : Nat → Value → Option σ → Option σ

/-- The case of a union that holds a message. -/
def Case.message {σ α : Type} [Message α] (tag : Nat) (inject : α → σ) (project : σ → Option α) :
    Case σ where
  tag := tag
  write v := (project v).map Message.encode
  read levels value current :=
    (Message.mergeEmbedded levels value ((current.bind project).getD Message.empty)).map inject

/-- A union of cases, of which at most one is present. -/
def Field.union {σ : Type} (cases : List (Case σ)) : Field (Option σ) where
  tags := cases.map Case.tag
  absent := none
  write
    | none => []
    | some v => cases.filterMap fun c => (c.write v).map fun bs => ⟨c.tag, .block bs⟩
  read levels e current :=
    match cases.find? fun c => c.tag == e.tag with
    | some c => (c.read levels e.value current).map some
    | none => none

end NameService.Wire
