import NameService.Wire.Varint

/-
  The items of a wire message, before anything is known of its type.

  A message is a row of fields, each with a tag and a value. Two forms of value
  are used by the messages here: an integer, and a block of bytes with its
  length in front. Two further forms exist that no message here uses, words of
  fixed width and groups; they can only be skipped, and are kept as foreign
  items with the depth to which they nest.

  `entryBytes` writes a field and `items?` reads a whole row.
-/

namespace NameService.Wire

inductive Value where
  /-- An integer, below 2^64. -/
  | varint (n : Nat)
  /-- A block of bytes: text, bytes or an embedded message. -/
  | block (bs : Bytes)
  deriving DecidableEq, Repr

/-- A field as it is written: its tag, and its value. -/
structure Entry where
  tag : Nat
  value : Value
  deriving DecidableEq, Repr

/-- An item as it is read. -/
inductive Item where
  | entry (e : Entry)
  /-- A word of fixed width, of depth 1, or a group, one deeper than the
  deepest item in it. -/
  | foreign (tag : Nat) (depth : Nat)
  deriving DecidableEq, Repr

def Item.tag : Item → Nat
  | entry e => e.tag
  | foreign tag _ => tag

/-- The levels of nesting that are needed to skip an item. -/
def Item.depth : Item → Nat
  | entry _ => 1
  | foreign _ depth => depth

/-! ## Writing -/

/-- The bytes of a field: its key, which is the tag with the form of the value,
and the value. -/
def Entry.bytes : Entry → Bytes
  | ⟨tag, .varint n⟩ => Varint.encode (8 * tag) ++ Varint.encode n
  | ⟨tag, .block bs⟩ => Varint.encode (8 * tag + 2) ++ Varint.encode bs.length ++ bs

def entryBytes (entries : List Entry) : Bytes :=
  entries.flatMap Entry.bytes

/-! ## Reading -/

inductive Form where
  | varint
  | fixed64
  | block
  | groupStart
  | groupEnd
  | fixed32
  deriving DecidableEq, Repr

def Form.ofNumber? : Nat → Option Form
  | 0 => some varint
  | 1 => some fixed64
  | 2 => some block
  | 3 => some groupStart
  | 4 => some groupEnd
  | 5 => some fixed32
  | _ => none

/-- Reads a key: the tag, which is not 0, and the form, in 32 bits. -/
def key? (bs : Bytes) : Option ((Nat × Form) × Bytes) := do
  let (key, rest) ← Varint.decode bs
  let form ← Form.ofNumber? (key % 8)
  if key < UInt32.size ∧ 8 ≤ key then some ((key / 8, form), rest) else none

/-- The first `n` bytes, and those behind them. -/
def split? (n : Nat) (bs : Bytes) : Option (Bytes × Bytes) :=
  if n ≤ bs.length then some (bs.take n, bs.drop n) else none

/-- Reads a block: its length, and its bytes. -/
def block? (bs : Bytes) : Option (Bytes × Bytes) := do
  let (n, rest) ← Varint.decode bs
  split? n rest

/-- Skips the items of a group up to the end of the group with the given tag,
and gives the depth of the deepest. -/
def groupDepth? : Nat → Nat → Bytes → Option (Nat × Bytes)
  | 0, _, _ => none
  | fuel + 1, tag, bs => do
    let ((itemTag, form), rest) ← key? bs
    match form with
    | .groupEnd => if itemTag = tag then some (0, rest) else none
    | .groupStart =>
      let (inner, rest) ← groupDepth? fuel itemTag rest
      let (others, rest) ← groupDepth? fuel tag rest
      some (max (inner + 1) others, rest)
    | .varint =>
      let (_, rest) ← Varint.decode rest
      let (others, rest) ← groupDepth? fuel tag rest
      some (max 1 others, rest)
    | .block =>
      let (_, rest) ← block? rest
      let (others, rest) ← groupDepth? fuel tag rest
      some (max 1 others, rest)
    | .fixed64 =>
      let (_, rest) ← split? 8 rest
      let (others, rest) ← groupDepth? fuel tag rest
      some (max 1 others, rest)
    | .fixed32 =>
      let (_, rest) ← split? 4 rest
      let (others, rest) ← groupDepth? fuel tag rest
      some (max 1 others, rest)

def item? (bs : Bytes) : Option (Item × Bytes) := do
  let ((tag, form), rest) ← key? bs
  match form with
  | .varint =>
    let (n, rest) ← Varint.decode rest
    some (.entry ⟨tag, .varint n⟩, rest)
  | .block =>
    let (block, rest) ← block? rest
    some (.entry ⟨tag, .block block⟩, rest)
  | .fixed64 =>
    let (_, rest) ← split? 8 rest
    some (.foreign tag 1, rest)
  | .fixed32 =>
    let (_, rest) ← split? 4 rest
    some (.foreign tag 1, rest)
  | .groupStart =>
    let (inner, rest) ← groupDepth? rest.length tag rest
    some (.foreign tag (inner + 1), rest)
  | .groupEnd => none

/-- Reads at most `fuel` items, up to the end of the bytes. -/
def readItems : Nat → Bytes → Option (List Item)
  | _, [] => some []
  | 0, _ :: _ => none
  | fuel + 1, b :: bs => do
    let (item, rest) ← item? (b :: bs)
    let items ← readItems fuel rest
    some (item :: items)

/-- The items that bytes hold. Each takes a byte or more, so that there are no
more items than bytes. -/
def items? (bs : Bytes) : Option (List Item) :=
  readItems bs.length bs

end NameService.Wire
