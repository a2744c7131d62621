import SchemaStack.Json.Printer
import SchemaStack.Json.Reader
/-!
# Project metadata

The resources of a project by category and name. Of what is noted about a resource, only its
service is looked at.
-/

namespace SchemaStack

structure ProjectMeta where
  categories : Entries (Entries Json)
deriving Repr, Inhabited

namespace ProjectMeta

def empty : ProjectMeta := ⟨[]⟩

/-- The names in a category whose service is the given one, in the order of the file. -/
def resourcesOf (m : ProjectMeta) (category service : String) : List String :=
  (((m.categories.get? category).getD []).filter fun r =>
    (r.2.get? "service").bind Json.string? == some service).map Prod.fst

/-- Adds a resource at the end of its category, and the category at the end of the project. -/
def add (m : ProjectMeta) (category name : String) (value : Json) : ProjectMeta :=
  let resources := (m.categories.get? category).getD []
  ⟨m.categories.insert category (resources.insert name value)⟩

def toJson (m : ProjectMeta) : Json := .object (m.categories.map fun c => (c.1, .object c.2))

/-- The resources of a category. Two levels of nesting are taken up by the metadata itself. -/
def resources? : JsonText → Option (Entries Json)
  | .object members => (JsonText.jsonMembers? (JsonText.maxDepth - 2) members).map Entries.ofList
  | _ => none

/-- A category that is given again replaces the one before, but both have to be readable. -/
def ofJsonText? : JsonText → Option ProjectMeta
  | .object members => (members.mapM fun (k, v) => do
      let key ← JsonText.string? k
      let resources ← resources? v
      return (key, resources)).map fun cs => ⟨Entries.ofList cs⟩
  | _ => none

def ofText? (text : String) : Option ProjectMeta :=
  (JsonText.parse? text.toList).bind ofJsonText?

end ProjectMeta

end SchemaStack
