import SchemaStack.Entries
import SchemaStack.Decimal.Binary64
/-!
# JSON values

A value as a program works on it: numbers are whole or binary64, and the members of an object are
in order. That the keys of an object are distinct is kept by the readers, which insert member by
member; the type does not force it.
-/

namespace SchemaStack

inductive JsonNumber where
  | whole (n : Int)
  | real (x : Binary64)
deriving DecidableEq, Repr

inductive Json where
  | null
  | bool (b : Bool)
  | number (n : JsonNumber)
  | string (s : String)
  | array (items : List Json)
  | object (members : List (String × Json))
deriving Repr, Inhabited

namespace Json

def ofNat (n : Nat) : Json := .number (.whole n)

def string? : Json → Option String
  | .string s => some s
  | _ => none

def array? : Json → Option (List Json)
  | .array items => some items
  | _ => none

def object? : Json → Option (Entries Json)
  | .object members => some members
  | _ => none

/-- The member of an object; every other value has none. -/
def get? (j : Json) (key : String) : Option Json :=
  j.object?.bind (Entries.get? · key)

end Json

end SchemaStack
