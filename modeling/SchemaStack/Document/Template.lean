import SchemaStack.Document.Basic
import SchemaStack.Json.Printer
import SchemaStack.Json.Reader
/-!
# Templates

A document as a JSON value and back. Reading is more liberal than writing: a record may be an
array of its fields in order, a type may be an object whose one key is the tag, members that mean
nothing are skipped, and resources without properties have none.
-/

namespace SchemaStack

namespace Resource

def toJson (r : Resource) : Json :=
  .object [("Type", .string r.type.tag), ("Properties", .object r.properties)]

def typeOfJson? : Json → Option ResourceType
  | .string tag => ResourceType.ofTag? tag
  | .object [(tag, .null)] => ResourceType.ofTag? tag
  | _ => none

def ofJson? : Json → Option Resource
  | .object members => do
    let type ← (Entries.get? members "Type").bind typeOfJson?
    match Entries.get? members "Properties" with
    | none => return ⟨type, []⟩
    | some p => return ⟨type, ← p.object?⟩
  | .array [type] => do return ⟨← typeOfJson? type, []⟩
  | .array [type, properties] => do return ⟨← typeOfJson? type, ← properties.object?⟩
  | _ => none

end Resource

namespace Document

def toJson (d : Document) : Json :=
  .object [("AWSTemplateFormatVersion", .string d.formatVersion),
    ("Resources", .object (d.resources.map fun e => (e.1, e.2.toJson)))]

/-- The text that is written to disk. -/
def template (d : Document) : String := d.toJson.pretty

def resourcesOfMembers? : Entries Json → Option (Entries Resource)
  | [] => some []
  | (id, j) :: es => do
    let r ← Resource.ofJson? j
    let rs ← resourcesOfMembers? es
    return (id, r) :: rs

def resourcesOfJson? (j : Json) : Option (Entries Resource) := j.object?.bind resourcesOfMembers?

def ofJson? : Json → Option Document
  | .object members => do
    let version ← (Entries.get? members "AWSTemplateFormatVersion").bind Json.string?
    match Entries.get? members "Resources" with
    | none => return ⟨version, []⟩
    | some j => return ⟨version, ← resourcesOfJson? j⟩
  | .array [version] => do return ⟨← version.string?, []⟩
  | .array [version, resources] => do
    return ⟨← version.string?, ← resourcesOfJson? resources⟩
  | _ => none

def ofTemplate? (text : String) : Option Document := (Json.parse? text).bind ofJson?

end Document

end SchemaStack
