/-!
# First letters

Names of schemas are ASCII, so the case of a letter is that of ASCII.
-/

namespace SchemaStack.Text

def mapFirst (f : Char → Char) : List Char → List Char
  | [] => []
  | c :: cs => f c :: cs

def lowerFirst (s : String) : String := String.ofList (mapFirst Char.toLower s.toList)

def upperFirst (s : String) : String := String.ofList (mapFirst Char.toUpper s.toList)

end SchemaStack.Text
