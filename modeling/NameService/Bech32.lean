import NameService.Bytes

/-
  Bech32 strings: a human readable part, the separator 1, and data in five-bit
  symbols of which the last six are a checksum.

  The checksum is the residue of the symbols, read as a polynomial over the
  field of 32 elements, modulo a fixed polynomial of degree six; a string is
  valid when its residue is 1. Reading accepts one letter case throughout,
  either one; writing uses lower case.

  Reading fails in one of two ways, and a string that has both faults is
  reported as unreadable: every check of the form comes before the checksum.
-/

namespace NameService.Bech32

/-- A group of five bits, written as one character. -/
abbrev Symbol := BitVec 5

/-- The remainder of a symbol string: six symbols, highest degree first. -/
abbrev Residue := BitVec 30

/-- Why a string has no data. -/
inductive Fault where
  /-- No separator, a foreign character, mixed case, or a human readable part
  that is empty, too long or not printable. -/
  | unreadable
  /-- A wrong checksum, no room for one, or a string too long to carry one. -/
  | badChecksum
  deriving DecidableEq, Repr

/-- The characters of the 32 symbols, in their order. -/
def alphabet : List Char :=
  ['q', 'p', 'z', 'r', 'y', '9', 'x', '8', 'g', 'f', '2', 't', 'v', 'd', 'w', '0',
   's', '3', 'j', 'n', '5', '4', 'k', 'h', 'c', 'e', '6', 'm', 'u', 'a', '7', 'l']

def letter (s : Symbol) : Char :=
  alphabet.getD s.toNat 'q'

/-- The symbol of a character of either case. -/
def symbol? (c : Char) : Option Symbol :=
  (alphabet.idxOf? c.toLower).map (BitVec.ofNat 5)

/-! ## Checksum -/

/-- What the symbol that leaves the residue at the top adds back to it: the
multiple of the checksum's polynomial that has this symbol in front. -/
def feedback (top : Symbol) : Residue :=
  (if top.getLsbD 0 then 0x3b6a57b2#30 else 0) ^^^
  (if top.getLsbD 1 then 0x26508e6d#30 else 0) ^^^
  (if top.getLsbD 2 then 0x1ea119fa#30 else 0) ^^^
  (if top.getLsbD 3 then 0x3d4233dd#30 else 0) ^^^
  (if top.getLsbD 4 then 0x2a1462b3#30 else 0)

def step (r : Residue) (s : Symbol) : Residue :=
  (r <<< 5) ^^^ s.setWidth 30 ^^^ feedback ((r >>> 25).setWidth 5)

def residue (symbols : List Symbol) : Residue :=
  symbols.foldl step 1

/-- How the human readable part enters the checksum: the high bits of its
characters, a zero, and their low five bits. -/
def expand (hrp : List Char) : List Symbol :=
  hrp.map (fun c => BitVec.ofNat 5 (c.toNat / 32)) ++
    0 :: hrp.map (fun c => BitVec.ofNat 5 c.toNat)

def Residue.symbols (r : Residue) : List Symbol :=
  [25, 20, 15, 10, 5, 0].map fun shift => (r >>> shift).setWidth 5

/-- The six symbols that make the residue of the whole string 1. -/
def checksum (hrp : List Char) (data : List Symbol) : List Symbol :=
  Residue.symbols (residue (expand hrp ++ data ++ List.replicate 6 0) ^^^ 1)

/-! ## Regrouping -/

/-- The bits of a word, most significant first. -/
def bits {n : Nat} (w : BitVec n) : List Bool :=
  (List.range n).map w.getMsbD

/-- The number that bits spell, most significant first. -/
def number (bs : List Bool) : Nat :=
  bs.foldl (fun n b => 2 * n + b.toNat) 0

/-- Bits as symbols, five at a time; the last symbol is filled up with zeros. -/
def symbolsOfBits : List Bool → List Symbol
  | a :: b :: c :: d :: e :: rest => BitVec.ofNat 5 (number [a, b, c, d, e]) :: symbolsOfBits rest
  | [a, b, c, d] => [BitVec.ofNat 5 (number [a, b, c, d, false])]
  | [a, b, c] => [BitVec.ofNat 5 (number [a, b, c, false, false])]
  | [a, b] => [BitVec.ofNat 5 (number [a, b, false, false, false])]
  | [a] => [BitVec.ofNat 5 (number [a, false, false, false, false])]
  | [] => []

/-- Bits as bytes, eight at a time; bits left over are dropped. -/
def bytesOfBits : List Bool → Bytes
  | a :: b :: c :: d :: e :: f :: g :: h :: rest =>
    UInt8.ofNat (number [a, b, c, d, e, f, g, h]) :: bytesOfBits rest
  | _ => []

def symbolsOfBytes (bs : Bytes) : List Symbol :=
  symbolsOfBits (bs.flatMap fun b => bits b.toBitVec)

def bytesOfSymbols (ss : List Symbol) : Bytes :=
  bytesOfBits (ss.flatMap bits)

/-! ## Strings -/

/-- The bech32 string of a byte string under a lowercase human readable part. -/
def encode (hrp : String) (data : Bytes) : String :=
  let symbols := symbolsOfBytes data
  String.ofList (hrp.toList ++ '1' :: (symbols ++ checksum hrp.toList symbols).map letter)

/-- What stands before and after the last occurrence of a character. -/
def splitAtLast (c : Char) : List Char → Option (List Char × List Char)
  | [] => none
  | x :: xs =>
    match splitAtLast c xs with
    | some (before, after) => some (x :: before, after)
    | none => if x = c then some ([], xs) else none

def mixedCase (cs : List Char) : Bool :=
  cs.any Char.isUpper && cs.any Char.isLower

/-- A human readable part has 1 to 83 printable ASCII characters. -/
def readable (hrp : List Char) : Bool :=
  !hrp.isEmpty && hrp.length ≤ 83 && hrp.all fun c => 33 ≤ c.toNat && c.toNat ≤ 126

/-- The longest string that the checksum is made for. -/
def maxLength : Nat := 1023

def checksumLength : Nat := 6

/-- The human readable part, in lower case, and the symbols after it, checksum
included; `none` if the string does not have the form of a bech32 string. -/
def parts? (s : List Char) : Option (List Char × List Symbol) := do
  let (hrp, tail) ← splitAtLast '1' s
  let symbols ← tail.mapM symbol?
  if mixedCase s || !readable hrp then none
  else some (hrp.map Char.toLower, symbols)

/-- The human readable part, in lower case, and the bytes of a bech32 string. -/
def decode (s : String) : Except Fault (String × Bytes) :=
  match parts? s.toList with
  | none => .error .unreadable
  | some (hrp, symbols) =>
    if s.length > maxLength || symbols.length < checksumLength
        || residue (expand hrp ++ symbols) ≠ 1 then
      .error .badChecksum
    else
      .ok (String.ofList hrp,
        bytesOfSymbols (symbols.take (symbols.length - checksumLength)))

end NameService.Bech32
