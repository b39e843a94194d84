import NameService.Decimal
import NameService.Hex
import NameService.Json.Value

/-
  Reading JSON text.

  The text is one value with blanks around it. Numbers follow the JSON grammar;
  an object that repeats a member keeps the last value of it; arrays and
  objects nest at most 127 deep.
-/

namespace NameService.Json

/-- The four blank characters of JSON. -/
def isBlank (c : Char) : Bool :=
  c == ' ' || c == '\t' || c == '\n' || c == '\r'

def skipBlank (cs : List Char) : List Char :=
  cs.dropWhile isBlank

def maxDepth : Nat := 127

/-! ## Numbers -/

/-- A run of one digit or more, and what follows it. -/
def digitRun? (cs : List Char) : Option (List Char × List Char) :=
  match cs.takeWhile Char.isDigit with
  | [] => none
  | digits => some (digits, cs.dropWhile Char.isDigit)

/-- The whole part of a number: digits without a superfluous leading zero. -/
def wholePart? (cs : List Char) : Option (List Char × List Char) := do
  let (digits, rest) ← digitRun? cs
  match digits with
  | '0' :: _ :: _ => none
  | _ => some (digits, rest)

/-- The fraction of a number, with its point; empty if there is none. -/
def fractionPart? : List Char → Option (List Char × List Char)
  | '.' :: rest => do
    let (digits, rest) ← digitRun? rest
    some ('.' :: digits, rest)
  | rest => some ([], rest)

/-- The exponent of a number, with its mark; empty if there is none. -/
def exponentPart? : List Char → Option (List Char × List Char)
  | mark :: rest =>
    if mark == 'e' || mark == 'E' then
      let (sign, rest) := match rest with
        | '+' :: rest => (['+'], rest)
        | '-' :: rest => (['-'], rest)
        | rest => ([], rest)
      do
        let (digits, rest) ← digitRun? rest
        some (mark :: sign ++ digits, rest)
    else some ([], mark :: rest)
  | [] => some ([], [])

/-- An integer if the number fits 64 bits, with or without sign; otherwise the
literal. The negative zero is no integer. -/
def ofDigits (negative : Bool) (digits : List Char) : Json :=
  let n := Decimal.value digits
  if negative && 0 < n && Int64.minValue.toInt ≤ -n then .integer (-n)
  else if !negative && n < UInt64.size then .integer n
  else .decimal (String.ofList (if negative then '-' :: digits else digits))

/-- A number, and what follows it. -/
def number? (cs : List Char) : Option (Json × List Char) :=
  let (negative, rest) := match cs with
    | '-' :: rest => (true, rest)
    | rest => (false, rest)
  do
    let (whole, rest) ← wholePart? rest
    let (fraction, rest) ← fractionPart? rest
    let (exponent, rest) ← exponentPart? rest
    if fraction.isEmpty && exponent.isEmpty then
      some (ofDigits negative whole, rest)
    else
      let literal := whole ++ fraction ++ exponent
      some (.decimal (String.ofList (if negative then '-' :: literal else literal)), rest)

/-! ## Texts -/

def hexUnit? (a b c d : Char) : Option Nat := do
  let a ← Hex.digitValue? a
  let b ← Hex.digitValue? b
  let c ← Hex.digitValue? c
  let d ← Hex.digitValue? d
  some (((a * 16 + b) * 16 + c) * 16 + d)

/-- The character that a backslash and a letter stand for. -/
def escaped? : Char → Option Char
  | '"' => some '"'
  | '\\' => some '\\'
  | '/' => some '/'
  | 'b' => some '\x08'
  | 'f' => some '\x0c'
  | 'n' => some '\n'
  | 'r' => some '\r'
  | 't' => some '\t'
  | _ => none

/-- The characters up to the closing quote, and what follows it. A character
above U+FFFF may be escaped as a pair of surrogates; a lone surrogate and a
raw control character are refused. -/
def textBody? : List Char → Option (List Char × List Char)
  | [] => none
  | '"' :: rest => some ([], rest)
  | '\\' :: 'u' :: a :: b :: c :: d :: rest =>
    match hexUnit? a b c d with
    | none => none
    | some unit =>
      if 0xd800 ≤ unit ∧ unit < 0xdc00 then
        match rest with
        | '\\' :: 'u' :: e :: f :: g :: h :: rest =>
          match hexUnit? e f g h with
          | none => none
          | some low =>
            if 0xdc00 ≤ low ∧ low < 0xe000 then
              (textBody? rest).map fun (cs, rest) =>
                (Char.ofNat (0x10000 + (unit - 0xd800) * 1024 + (low - 0xdc00)) :: cs, rest)
            else none
        | _ => none
      else if 0xdc00 ≤ unit ∧ unit < 0xe000 then none
      else (textBody? rest).map fun (cs, rest) => (Char.ofNat unit :: cs, rest)
  | '\\' :: e :: rest =>
    match escaped? e with
    | none => none
    | some c => (textBody? rest).map fun (cs, rest) => (c :: cs, rest)
  | c :: rest =>
    if c.toNat < 32 || c == '\\' then none
    else (textBody? rest).map fun (cs, rest) => (c :: cs, rest)

/-! ## Values -/

/-- Members with one added; an earlier member of the name gives way to it. -/
def setMember (members : List (String × Json)) (name : String) (value : Json) :
    List (String × Json) :=
  members.filter (fun m => m.1 != name) ++ [(name, value)]

mutual

/-- A value, and what follows it. -/
def value? : Nat → Nat → List Char → Option (Json × List Char)
  | 0, _, _ => none
  | fuel + 1, depth, cs =>
    match skipBlank cs with
    | 'n' :: 'u' :: 'l' :: 'l' :: rest => some (.null, rest)
    | 't' :: 'r' :: 'u' :: 'e' :: rest => some (.bool true, rest)
    | 'f' :: 'a' :: 'l' :: 's' :: 'e' :: rest => some (.bool false, rest)
    | '"' :: rest => (textBody? rest).map fun (body, rest) => (.text (String.ofList body), rest)
    | '[' :: rest =>
      match depth, skipBlank rest with
      | 0, _ => none
      | _ + 1, ']' :: rest => some (.array [], rest)
      | depth + 1, rest => (items? fuel depth rest).map fun (items, rest) => (.array items, rest)
    | '\x7b' :: rest =>
      match depth, skipBlank rest with
      | 0, _ => none
      | _ + 1, '\x7d' :: rest => some (.object [], rest)
      | depth + 1, rest =>
        (members? fuel depth [] rest).map fun (members, rest) => (.object members, rest)
    | rest => number? rest

/-- The items of an array up to its closing bracket, and what follows it. -/
def items? : Nat → Nat → List Char → Option (List Json × List Char)
  | 0, _, _ => none
  | fuel + 1, depth, cs =>
    match value? fuel depth cs with
    | none => none
    | some (item, rest) =>
      match skipBlank rest with
      | ',' :: rest => (items? fuel depth rest).map fun (items, rest) => (item :: items, rest)
      | ']' :: rest => some ([item], rest)
      | _ => none

/-- The members of an object up to its closing brace, added to those read so
far, and what follows it. -/
def members? : Nat → Nat → List (String × Json) → List Char →
    Option (List (String × Json) × List Char)
  | 0, _, _, _ => none
  | fuel + 1, depth, members, cs =>
    match skipBlank cs with
    | '"' :: rest =>
      match textBody? rest with
      | none => none
      | some (name, rest) =>
        match skipBlank rest with
        | ':' :: rest =>
          match value? fuel depth rest with
          | none => none
          | some (item, rest) =>
            let members := setMember members (String.ofList name) item
            match skipBlank rest with
            | ',' :: rest => members? fuel depth members rest
            | '\x7d' :: rest => some (members, rest)
            | _ => none
        | _ => none
    | _ => none

end

/-- The value of a JSON text. Every step takes a character or is followed by
one that does, so twice the length of the text is fuel enough. -/
def parse? (s : String) : Option Json :=
  let cs := s.toList
  match value? (2 * cs.length + 2) maxDepth cs with
  | some (j, rest) => if (skipBlank rest).isEmpty then some j else none
  | none => none

end NameService.Json
