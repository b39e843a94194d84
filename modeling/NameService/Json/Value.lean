/-
  JSON values.

  A number written as an integer between -2^63 and 2^64 - 1 is an integer; any
  other number is kept as the literal that was read, since no value of this
  library is one. The members of an object are kept in their order.
-/

namespace NameService

inductive Json where
  | null
  | bool (b : Bool)
  | integer (n : Int)
  /-- A number with a point, an exponent or a magnitude beyond 64 bits, and
  the negative zero. -/
  | decimal (literal : String)
  | text (s : String)
  | array (items : List Json)
  | object (members : List (String × Json))
  deriving Inhabited, Repr

namespace Json

mutual

/-- How many arrays and objects are nested in each other. -/
def depth : Json → Nat
  | .array items => listDepth items + 1
  | .object members => memberDepth members + 1
  | _ => 0

def listDepth : List Json → Nat
  | [] => 0
  | item :: rest => max item.depth (listDepth rest)

def memberDepth : List (String × Json) → Nat
  | [] => 0
  | (_, item) :: rest => max item.depth (memberDepth rest)

end

/-- A member that is written only if it has a value. -/
def optional (name : String) : Option Json → List (String × Json)
  | none => []
  | some j => [(name, j)]

end Json

end NameService
