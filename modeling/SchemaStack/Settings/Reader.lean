import SchemaStack.Settings
import SchemaStack.Text.Blank
import SchemaStack.Yaml.Grammar
/-!
# Reading settings

Settings are written as a YAML mapping. Keys that mean nothing here are skipped, whatever they
hold; a key that does may not be repeated.
-/

namespace SchemaStack.Settings

open Yaml (Node ScalarStyle Tag)

def coreTag (name : String) : Tag := Tag.ofText ("tag:yaml.org,2002:" ++ name)

def isNullWord (s : String) : Bool := ["null", "Null", "NULL", "~"].contains s

/-! ## Scalars -/

def text? : Node Nat → Option String
  | .scalar _ _ _ x => some x
  | _ => none

/-- The text of a scalar from which more than text may be read: a plain one, or a literal one that
is tagged as what is read. -/
def bareText? (tag : Tag) : Node Nat → Option String
  | .scalar _ _ .plain x => some x
  | .scalar _ (some t) .literal x => if t = tag then some x else none
  | _ => none

def bool? (n : Node Nat) : Option Bool :=
  (bareText? (coreTag "bool") n).bind fun x =>
    if ["true", "True", "TRUE"].contains x then some true
    else if ["false", "False", "FALSE"].contains x then some false
    else none

/-- The value of a non-empty run of digits in a base up to 16. -/
def digits? (base : Nat) (cs : List Char) : Option Nat :=
  if cs.isEmpty then none
  else cs.foldlM (fun n c => (Yaml.hexValue? c).bind fun d =>
    if d < base then some (n * base + d) else none) 0

/-- A number without a sign: with the mark of its base, or decimal and then without leading
zeros. -/
def unsigned? : List Char → Option Nat
  | '0' :: 'x' :: cs => digits? 16 cs
  | '0' :: 'o' :: cs => digits? 8 cs
  | '0' :: 'b' :: cs => digits? 2 cs
  | '0' :: _ :: _ => none
  | cs => digits? 10 cs

/-- A whole number of at most 32 bits. It may have a plus sign. -/
def capacity? (n : Node Nat) : Option Nat :=
  (bareText? (coreTag "int") n).bind fun x =>
    let value := match x.toList with
      | '+' :: cs => unsigned? cs
      | cs => unsigned? cs
    value.filter (· < Nat.pow 2 32)

/-- A text, or nothing where the scalar is null. A scalar tagged as null has to be null. -/
def optionalText? : Node Nat → Option (Option String)
  | .scalar _ none .plain x => some (if x.isEmpty || isNullWord x then none else some x)
  | .scalar _ (some t) .plain x =>
    if t = coreTag "null" then (if isNullWord x then some none else none) else some (some x)
  | .scalar _ _ _ x => some (some x)
  | _ => none

/-- The part of a tag after its exclamation mark, where it has one and is a text. -/
def localName? : Tag → Option String
  | 33 :: bs => String.fromUTF8? ⟨bs.toArray⟩
  | _ => none

def serviceOf? (name : String) : Option StorageService :=
  if name = StorageService.dynamoDb.label then some .dynamoDb else none

/-- A service, named by a scalar or by the tag of a null. -/
def service? : Node Nat → Option StorageService
  | .scalar _ tag style x =>
    match tag.bind localName? with
    | none => serviceOf? x
    | some name =>
      if style = .plain ∧ (x.isEmpty ∨ isNullWord x) then serviceOf? name else none
  | _ => none

/-! ## Records -/

/-- The fields of a record with the given keys. Its text may be left out altogether. -/
def fields? (root : Node Nat) (keys : List String) : Node Nat → Option (Entries (Node Nat))
  | .mapping _ members => members.foldlM (fun fs (k, v) => do
      let key ← text? (k.target root)
      if !keys.contains key then some fs
      else if fs.contains key then none
      else some (fs ++ [(key, v.target root)])) []
  | .scalar _ _ .plain "" => some []
  | _ => none

/-- A field that keeps its default where it is left out. -/
def fieldOr {α : Type} (fs : Entries (Node Nat)) (key : String) (read : Node Nat → Option α)
    (standard : α) : Option α :=
  match fs.get? key with
  | none => some standard
  | some n => read n

def layout? (root n : Node Nat) : Option Layout := do
  let d : Layout := {}
  let fs ← fields? root ["category", "parameters_file", "template_file", "schema_file",
    "build_dir", "backend_dir", "project_meta_file"] n
  return {
    category := ← fieldOr fs "category" text? d.category
    parametersFile := ← fieldOr fs "parameters_file" text? d.parametersFile
    templateFile := ← fieldOr fs "template_file" text? d.templateFile
    schemaFile := ← fieldOr fs "schema_file" text? d.schemaFile
    buildDir := ← fieldOr fs "build_dir" text? d.buildDir
    backendDir := ← fieldOr fs "backend_dir" text? d.backendDir
    metaFile := ← fieldOr fs "project_meta_file" text? d.metaFile }

def buildSettings? (root n : Node Nat) : Option BuildSettings := do
  let d : BuildSettings := {}
  let fs ← fields? root
    ["api_name", "read_capacity", "write_capacity", "connections", "auth_parameter"] n
  return {
    apiName := ← fieldOr fs "api_name" optionalText? d.apiName
    readCapacity := ← fieldOr fs "read_capacity" capacity? d.readCapacity
    writeCapacity := ← fieldOr fs "write_capacity" capacity? d.writeCapacity
    connections := ← fieldOr fs "connections" bool? d.connections
    authParameter := ← fieldOr fs "auth_parameter" text? d.authParameter }

def overrideSettings? (root n : Node Nat) : Option OverrideSettings := do
  let d : OverrideSettings := {}
  let fs ← fields? root ["provider", "storage_category", "service", "storage_plugin"] n
  return {
    provider := ← fieldOr fs "provider" text? d.provider
    storageCategory := ← fieldOr fs "storage_category" text? d.storageCategory
    service := ← fieldOr fs "service" service? d.service
    storagePlugin := ← fieldOr fs "storage_plugin" bool? d.storagePlugin }

def ofNode? (root : Node Nat) : Option Settings := do
  let fs ← fields? root ["layout", "transform", "reconcile"] (root.target root)
  return {
    layout := ← fieldOr fs "layout" (layout? root) {}
    build := ← fieldOr fs "transform" (buildSettings? root) {}
    override := ← fieldOr fs "reconcile" (overrideSettings? root) {} }

/-- The settings that a text gives. A blank text gives the defaults. -/
def parse? (text : String) : Option Settings :=
  if text.toList.all Text.isBlank then some {} else (Yaml.parse? text).bind ofNode?

end SchemaStack.Settings
