import SchemaStack.Schema.Lexer
import SchemaStack.Schema.Parser
import SchemaStack.Schema.Validity
/-!
# Reading schemas

From text to a structurally valid schema. The whole text is split into tokens before any of them
is looked at, so a fault of the text comes before a fault of the grammar, wherever it is.
-/

namespace SchemaStack

def Schema.parse (text : String) : Except SchemaError Schema := do
  let ts ← Lexer.tokens text
  let s ← Schema.ofTokens ts
  s.check
  return s

end SchemaStack
