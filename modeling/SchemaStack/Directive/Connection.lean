import SchemaStack.Directive.Model
import SchemaStack.Text.Letters
/-!
# Relations between models

A field with `@connection` reads items of another model type. A list queries an index of the
child's table, which this stage adds, and a single value fetches one item. Both sides of a named
relation use one key: that of the list.
-/

namespace SchemaStack

/-- A resolved `@connection` field. -/
structure Relation where
  parent : String
  field : String
  target : String
  /-- The attribute that refers to the other item. -/
  key : String
  /-- The index that a list queries. -/
  index : Option String
deriving DecidableEq, Repr, Inhabited

namespace Connection

def fail {α : Type} (f : ConnectionFault) (line : Nat) : Except SchemaError α :=
  .error ((Fault.connection f).onLine line)

/-- The name that a field gives its relation, if it is part of one and gives one. -/
def name? (o : ObjectType) (f : Field) : Except SchemaError (Option String) :=
  match f.directive? "connection" with
  | none => .ok none
  | some d =>
    match d.arguments.keys.find? (· ≠ "name") with
    | some arg => fail (.unknownArgument o.name f.name arg) d.line
    | none =>
      match d.arguments.get? "name" with
      | none => .ok none
      | some v =>
        match v.text? with
        | none => fail (.nameNotText o.name f.name) d.line
        | some s => .ok (some s)

/-- The first list of `parent` items among the fields of `target` that has the given name. -/
def pairedList? (target : ObjectType) (parent name : String) :
    List Field → Except SchemaError (Option Field)
  | [] => .ok none
  | f :: fs =>
    if f.type.base = parent then
      match name? target f with
      | .error e => .error e
      | .ok n =>
        if n = some name ∧ f.type.isList then .ok (some f)
        else pairedList? target parent name fs
    else pairedList? target parent name fs

/-- The key attribute that a field of a type would introduce. -/
def keyOf (type field : String) : String :=
  Text.lowerFirst type ++ Text.upperFirst field ++ "Id"

def indexOf (name : Option String) (type field : String) : String :=
  "gsi-" ++ name.getD (type ++ Text.upperFirst field)

/-- Whether the other type has a list of the same name that points back. -/
def pointsBack (target : ObjectType) (parent name : String) : Bool :=
  target.fields.any fun f =>
    f.type.isList && f.type.base == parent &&
      match name? target f with
      | .ok (some n) => n == name
      | _ => false

def resolveList (o target : ObjectType) (f : Field) (name : Option String) :
    Except SchemaError Relation :=
  match name.filter (pointsBack target o.name) with
  | some n =>
    if target.name ≠ o.name then fail (.manyToMany n) f.line else .ok relation
  | none => .ok relation
where
  /-- The relation of a list field. -/
  relation : Relation :=
    ⟨o.name, f.name, target.name, keyOf o.name f.name, some (indexOf name o.name f.name)⟩

def resolveSingle (o target : ObjectType) (f : Field) (name : Option String) :
    Except SchemaError Relation := do
  let paired ← match name with
    | none => .ok none
    | some n => pairedList? target o.name n target.fields
  let key := match paired with
    | none => keyOf o.name f.name
    | some list => keyOf target.name list.name
  return ⟨o.name, f.name, target.name, key, none⟩

def resolve (a : Artifacts) (o : ObjectType) (f : Field) : Except SchemaError Relation :=
  match a.model? o.name with
  | none => fail (.outsideModel o.name f.name) f.line
  | some _ =>
    match a.model? f.type.base, a.types.get? f.type.base with
    | some _, some target => do
      let name ← name? o f
      if f.type.isList then resolveList o target f name else resolveSingle o target f name
    | _, _ => fail (.notAModel o.name f.name f.type.base) f.line

/-- The fields of the registered types that are part of a relation. -/
def fields (a : Artifacts) : List (ObjectType × Field) :=
  a.objectTypes.flatMap fun o =>
    (o.fields.filter fun f => (f.directive? "connection").isSome).map (o, ·)

/-- Resolves fields in order. `owners` holds the field that declared each index of each table. -/
def relationsFrom (a : Artifacts) (owners : List ((String × String) × String)) :
    List (ObjectType × Field) → Except SchemaError (List Relation)
  | [] => .ok []
  | (o, f) :: fs => do
    let r ← resolve a o f
    match r.index with
    | none => return r :: (← relationsFrom a owners fs)
    | some index =>
      let owner := r.parent ++ "." ++ r.field
      match owners.lookup (r.target, index) with
      | some first => fail (.duplicateIndex index r.target first owner) f.line
      | none => return r :: (← relationsFrom a (owners ++ [((r.target, index), owner)]) fs)

def relations (a : Artifacts) : Except SchemaError (List Relation) :=
  relationsFrom a [] (fields a)

def resolverId (r : Relation) : String := r.parent ++ Text.upperFirst r.field ++ "Resolver"

def resolverResource (r : Relation) (target : Model) : Resource :=
  match r.index with
  | some index =>
    resolver r.parent r.field target.dataSource (Mapping.queryRequest index r.key)
      Mapping.itemsResponse
  | none =>
    resolver r.parent r.field target.dataSource (Mapping.itemRequest r.key) Mapping.response

/-- The attributes and the indexes of a table, as they are to be. -/
structure TableIndexes where
  attributes : List Json
  indexes : List Json
deriving Repr, Inhabited

def TableIndexes.ofDocument (d : Document) (table : String) : TableIndexes where
  attributes := ((d.property? table "AttributeDefinitions").bind Json.array?).getD []
  indexes := ((d.property? table "GlobalSecondaryIndexes").bind Json.array?).getD []

/-- An index with the throughput of its table. -/
def indexDefinition (d : Document) (table index key : String) : Json :=
  .object
    [("IndexName", .string index),
     ("KeySchema", Model.hashKey key),
     ("Projection", .object [("ProjectionType", .string "ALL")]),
     ("ProvisionedThroughput", (d.property? table "ProvisionedThroughput").getD .null)]

/-- Adds the index that a list queries to those of its table. -/
def addIndex (d : Document) (a : Artifacts) (tables : Entries TableIndexes) (r : Relation) :
    Entries TableIndexes :=
  match r.index, a.model? r.target with
  | some index, some m =>
    let t := (tables.get? m.table).getD (.ofDocument d m.table)
    tables.insert m.table
      ⟨t.attributes ++ [Model.attributeDefinition r.key],
       t.indexes ++ [indexDefinition d m.table index r.key]⟩
  | _, _ => tables

def amendments (tables : Entries TableIndexes) : List Amendment :=
  tables.flatMap fun (table, t) =>
    [⟨table, "AttributeDefinitions", .array t.attributes⟩,
     ⟨table, "GlobalSecondaryIndexes", .array t.indexes⟩]

def entries (a : Artifacts) (rs : List Relation) : List (String × Resource) :=
  rs.filterMap fun r => (a.model? r.target).map fun m => (resolverId r, resolverResource r m)

def contribute (c : Context) : Except BuildError (Artifacts × Contribution) :=
  match relations c.artifacts with
  | .error e => .error (.schema e)
  | .ok rs =>
    let es := entries c.artifacts rs
    .ok (es.foldl (fun a e => a.registerConnection e.1) c.artifacts,
      { entries := es
        amendments := amendments (rs.foldl (addIndex c.document c.artifacts) []) })

def stage : Stage where
  name := "connection"
  requires := [.typeRegistry, .modelTables]
  provides := [.connections, .resolvers]
  directives := [⟨"connection", .field⟩]
  contribute := contribute

end Connection

end SchemaStack
