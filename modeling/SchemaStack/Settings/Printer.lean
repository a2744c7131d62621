import SchemaStack.Settings
import SchemaStack.Text.Lines
/-!
# Writing settings

The default settings as a text. None of the defaults is a text that YAML would need quotes for.
-/

namespace SchemaStack.Settings

def boolText (b : Bool) : String := if b then "true" else "false"

def field (name value : String) : String := "  " ++ name ++ ": " ++ value

def layoutLines (l : Layout) : List String :=
  ["layout:", field "category" l.category, field "parameters_file" l.parametersFile,
   field "template_file" l.templateFile, field "schema_file" l.schemaFile,
   field "build_dir" l.buildDir, field "backend_dir" l.backendDir,
   field "project_meta_file" l.metaFile]

def buildLines (b : BuildSettings) : List String :=
  ["transform:", field "api_name" (b.apiName.getD "null"),
   field "read_capacity" (toString b.readCapacity),
   field "write_capacity" (toString b.writeCapacity),
   field "connections" (boolText b.connections), field "auth_parameter" b.authParameter]

def overrideLines (o : OverrideSettings) : List String :=
  ["reconcile:", field "provider" o.provider, field "storage_category" o.storageCategory,
   field "service" o.service.label, field "storage_plugin" (boolText o.storagePlugin)]

/-- Every setting with its default, in the order in which they are declared. -/
def defaultText : String :=
  Text.lines (layoutLines {} ++ buildLines {} ++ overrideLines {}) ++ "\n"

end SchemaStack.Settings
