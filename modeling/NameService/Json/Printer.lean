import NameService.Hex
import NameService.Json.Value

/-
  Writing JSON values as text on one line, without blanks.

  Quotes, backslashes and control characters are escaped; every other character
  is written as it is.
-/

namespace NameService.Json

/-- A character as it stands inside quotes. -/
def printChar (c : Char) : List Char :=
  if c = '"' then ['\\', '"']
  else if c = '\\' then ['\\', '\\']
  else if c.toNat < 32 then
    ['\\', 'u', '0', '0', Hex.digit (c.toNat / 16), Hex.digit (c.toNat % 16)]
  else [c]

def printText (s : String) : List Char :=
  '"' :: s.toList.flatMap printChar ++ ['"']

mutual

def print : Json → List Char
  | .null => "null".toList
  | .bool true => "true".toList
  | .bool false => "false".toList
  | .integer n => (toString n).toList
  | .decimal literal => literal.toList
  | .text s => printText s
  | .array items => '[' :: printItems items
  | .object members => '\x7b' :: printMembers members

/-- The items of an array, with the closing bracket. -/
def printItems : List Json → List Char
  | [] => [']']
  | [item] => print item ++ [']']
  | item :: rest => print item ++ ',' :: printItems rest

/-- The members of an object, with the closing brace. -/
def printMembers : List (String × Json) → List Char
  | [] => ['\x7d']
  | [(name, item)] => printText name ++ ':' :: (print item ++ ['\x7d'])
  | (name, item) :: rest => printText name ++ ':' :: (print item ++ ',' :: printMembers rest)

end

def render (j : Json) : String :=
  String.ofList j.print

end NameService.Json
