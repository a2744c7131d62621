import SchemaStack.Schema.Basic
/-!
# Writing schemas

The text of a schema without its directives: a field or value to a line, and a blank line between
definitions.
-/

namespace SchemaStack

namespace TypeRef

def text : TypeRef → String
  | .named n => n
  | .list t => "[" ++ t.text ++ "]"
  | .nonNull t => t.text ++ "!"

end TypeRef

/-- A definition with a keyword, a name and one line for each part. -/
def block (keyword name : String) (lines : List String) : String :=
  keyword ++ " " ++ name ++ " \x7b\n" ++ String.join (lines.map fun l => "  " ++ l ++ "\n") ++ "\x7d"

/-- Blocks with a blank line between them. -/
def blocks (bs : List String) : String := "\n\n".intercalate bs

def Field.text (f : Field) : String := f.name ++ ": " ++ f.type.text

def ObjectType.text (o : ObjectType) : String := block "type" o.name (o.fields.map Field.text)

def EnumType.text (e : EnumType) : String := block "enum" e.name e.values

def Definition.text : Definition → String
  | .object o => o.text
  | .enum e => e.text

def Schema.text (s : Schema) : String := blocks (s.definitions.map Definition.text)

end SchemaStack
