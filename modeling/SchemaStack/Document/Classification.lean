import SchemaStack.Document.Basic
/-!
# Resources by type

The IDs of a type in document order, from a document or from any JSON value in the shape of a
template, and how many resources there are of each type.
-/

namespace SchemaStack

namespace Document

def idsOfType (d : Document) (t : ResourceType) : List String :=
  (d.resources.filter fun e => e.2.type == t).map Prod.fst

/-- The number of resources of each type that occurs, in order of first occurrence. -/
def summary (d : Document) : List (ResourceType × Nat) :=
  let types := d.resources.map fun e => e.2.type
  types.eraseDups.map fun t => (t, types.count t)

end Document

/-- The IDs of a raw template whose type is the given tag, known or not. -/
def Json.idsOfTag (template : Json) (tag : String) : List String :=
  match (template.get? "Resources").bind Json.object? with
  | none => []
  | some resources =>
    (resources.filter fun e => (e.2.get? "Type").bind Json.string? == some tag).map Prod.fst

end SchemaStack
