/-!
# Texts made of lines
-/

namespace SchemaStack.Text

def lines (ls : List String) : String := "\n".intercalate ls

end SchemaStack.Text
