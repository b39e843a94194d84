import NameService.Bytes
import NameService.Error

/-
  Memos: texts of at most 128 bytes. On the wire no memo and the empty one are
  the same.
-/

namespace NameService.Memo

/-- The most bytes that a memo may have. -/
def limit : Nat := 128

/-- The text that stands for a memo on the wire. -/
def encode (memo : Option String) : Except Error String :=
  let text := memo.getD ""
  if (Bytes.ofText text).length ≤ limit then .ok text
  else .error (.memoTooLong limit (Bytes.ofText text).length)

def decode (text : String) : Option String :=
  if text = "" then none else some text

end NameService.Memo
