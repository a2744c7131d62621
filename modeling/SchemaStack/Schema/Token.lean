import SchemaStack.Decimal.Shortest
/-!
# Tokens of schema texts
-/

namespace SchemaStack

inductive Token where
  | name (s : String)
  | string (s : String)
  | int (n : Int)
  | float (x : Binary64)
  | punct (c : Char)
deriving DecidableEq, Repr, Inhabited

/-- A token and the line its first character is on. -/
structure Lexeme where
  token : Token
  line : Nat
deriving DecidableEq, Repr, Inhabited

/-- A token as messages name it. The text of a string is not shown. -/
def Token.describe : Token → String
  | .name s => "'" ++ s ++ "'"
  | .string _ => "string"
  | .int n => "'" ++ toString n ++ "'"
  | .float x => "'" ++ String.ofList x.positional ++ "'"
  | .punct c => "'" ++ String.singleton c ++ "'"

end SchemaStack
