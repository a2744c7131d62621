/-!
# Substitution

Replacing every occurrence of a pattern in a text, from the front and without overlap.
-/

namespace SchemaStack.Text

/-- `skip` characters still belong to an occurrence that was replaced. -/
def replaceFrom (pattern by' : List Char) : (skip : Nat) → List Char → List Char
  | _, [] => []
  | skip + 1, _ :: cs => replaceFrom pattern by' skip cs
  | 0, c :: cs =>
    if pattern.isPrefixOf (c :: cs) then by' ++ replaceFrom pattern by' (pattern.length - 1) cs
    else c :: replaceFrom pattern by' 0 cs

def replaceAll (text pattern replacement : String) : String :=
  String.ofList (replaceFrom pattern.toList replacement.toList 0 text.toList)

end SchemaStack.Text
