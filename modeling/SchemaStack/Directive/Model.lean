import SchemaStack.Config
import SchemaStack.Directive.Api
import SchemaStack.Mapping.Request
/-!
# Model types

A type with `@model` gets a table, a role that may use it, a data source on top of both, and a
resolver for each operation. The schema is extended by the inputs, connections and root fields
that go with them.
-/

namespace SchemaStack

/-- A resolver of a field. -/
def resolver (type field dataSource request response : String) : Resource :=
  ⟨.resolver,
   [("ApiId", attributeOf Api.apiId "ApiId"), ("DataSourceName", attributeOf dataSource "Name"),
    ("TypeName", .string type), ("FieldName", .string field),
    ("RequestMappingTemplate", .string request), ("ResponseMappingTemplate", .string response)]⟩

namespace Operation

/-- The root field that serves an operation on a type. -/
def field (op : Operation) (type : String) : String :=
  match op with
  | .get => "get" ++ type
  | .list => "list" ++ type ++ "s"
  | .create => "create" ++ type
  | .update => "update" ++ type
  | .delete => "delete" ++ type

def resolverId (op : Operation) (type : String) : String := op.label ++ type ++ "Resolver"

end Operation

namespace Model

/-- The IDs of everything that belongs to a model type. -/
def ofType (type : String) : Model where
  typeName := type
  table := type ++ "Table"
  role := type ++ "IAMRole"
  dataSource := type ++ "DataSource"
  resolvers := Operation.all.map fun op => (op, op.resolverId type)

def throughput (c : BuildConfig) : Json :=
  .object [("ReadCapacityUnits", .ofNat c.readCapacity),
    ("WriteCapacityUnits", .ofNat c.writeCapacity)]

/-- An attribute that holds a string. -/
def attributeDefinition (name : String) : Json :=
  .object [("AttributeName", .string name), ("AttributeType", .string "S")]

def hashKey (name : String) : Json :=
  .array [.object [("AttributeName", .string name), ("KeyType", .string "HASH")]]

def tableResource (c : BuildConfig) (type : String) : Resource :=
  ⟨.table,
   [("TableName", .string (type ++ "-" ++ c.apiName)),
    ("AttributeDefinitions", .array [attributeDefinition "id"]),
    ("KeySchema", hashKey "id"),
    ("ProvisionedThroughput", throughput c),
    ("StreamSpecification", .object [("StreamViewType", .string "NEW_AND_OLD_IMAGES")])]⟩

/-- What the role of a table may do with it and with its indexes. -/
def tableActions : List String :=
  ["dynamodb:BatchGetItem", "dynamodb:BatchWriteItem", "dynamodb:PutItem", "dynamodb:DeleteItem",
   "dynamodb:GetItem", "dynamodb:Scan", "dynamodb:Query", "dynamodb:UpdateItem"]

/-- A policy document with one statement. -/
def policy (statement : List (String × Json)) : Json :=
  .object [("Version", .string "2012-10-17"), ("Statement", .array [.object statement])]

def roleResource (c : BuildConfig) (type table : String) : Resource :=
  let arn := attributeOf table "Arn"
  ⟨.role,
   [("RoleName", .string (type ++ "Role-" ++ c.apiName)),
    ("AssumeRolePolicyDocument", policy
      [("Effect", .string "Allow"),
       ("Principal", .object [("Service", .string "appsync.amazonaws.com")]),
       ("Action", .string "sts:AssumeRole")]),
    ("Policies", .array [.object
      [("PolicyName", .string "DynamoDBAccess"),
       ("PolicyDocument", policy
        [("Effect", .string "Allow"),
         ("Action", .array (tableActions.map .string)),
         ("Resource", .array
          [arn, .object [("Fn::Join",
            .array [.string "/", .array [arn, .string "index/*"]])]])])]])]⟩

def dataSourceResource (type table role : String) : Resource :=
  ⟨.dataSource,
   [("ApiId", attributeOf Api.apiId "ApiId"),
    ("Name", .string (type ++ "Table")),
    ("Type", .string "AMAZON_DYNAMODB"),
    ("ServiceRoleArn", attributeOf role "Arn"),
    ("DynamoDBConfig", .object
      [("AwsRegion", referenceTo "AWS::Region"), ("TableName", referenceTo table)])]⟩

def resolverResource (m : Model) (op : Operation) : Resource :=
  resolver op.rootType (op.field m.typeName) m.dataSource (Mapping.request op) Mapping.response

/-- The resources of a model type, in document order. -/
def entries (c : BuildConfig) (type : String) : List (String × Resource) :=
  let m := ofType type
  [(m.table, tableResource c type), (m.role, roleResource c type m.table),
   (m.dataSource, dataSourceResource type m.table m.role)] ++
    m.resolvers.map fun r => (r.2, m.resolverResource r.1)

def check (o : ObjectType) : Except SchemaError Unit :=
  match o.directive? "model" with
  | some d =>
    if !d.arguments.isEmpty then .error ((Fault.model o.name .arguments).onLine d.line)
    else checkId
  | none => checkId
where
  /-- The `id` field has to be a non-null ID. -/
  checkId : Except SchemaError Unit :=
    if (o.field? "id").any fun f => f.type == .nonNull (.named "ID") then .ok ()
    else .error ((Fault.model o.name .missingId).onLine o.line)

def checkAll : List ObjectType → Except SchemaError Unit
  | [] => .ok ()
  | o :: os =>
    match check o with
    | .error e => .error e
    | .ok () => checkAll os

/-- Whether a field may stand in an input: scalars and enums may. -/
def isInputField (enums : List String) (f : Field) : Bool :=
  f.name != "id" && (Schema.isBuiltinScalar f.type.base || enums.contains f.type.base)

/-- The types that go with a model type. -/
def typeBlocks (enums : List String) (o : ObjectType) : List String :=
  let inputs := o.fields.filter (isInputField enums)
  [block "type" ("Model" ++ o.name ++ "Connection")
     ["items: [" ++ o.name ++ "]", "nextToken: String"],
   block "input" ("Create" ++ o.name ++ "Input")
     ("id: ID" :: inputs.map fun f => f.name ++ ": " ++ f.type.text),
   block "input" ("Update" ++ o.name ++ "Input")
     ("id: ID!" :: inputs.map fun f => f.name ++ ": " ++ f.type.nullable.text),
   block "input" ("Delete" ++ o.name ++ "Input") ["id: ID"]]

/-- The root field of an operation with its arguments and its type. -/
def rootField (op : Operation) (type : String) : String :=
  match op with
  | .get => op.field type ++ "(id: ID!): " ++ type
  | .list =>
    op.field type ++ "(limit: Int, nextToken: String): Model" ++ type ++ "Connection"
  | _ => op.field type ++ "(input: " ++ op.label ++ type ++ "Input!): " ++ type

/-- The fields of one root type. -/
def rootFields (root : String) (os : List ObjectType) : List String :=
  os.flatMap fun o =>
    (Operation.all.filter fun op => op.rootType == root).map fun op => rootField op o.name

/-- The text that the models add to the schema. -/
def schemaText (enums : List String) (os : List ObjectType) : String :=
  blocks (os.flatMap (typeBlocks enums) ++
    [block "type" "Query" (rootFields "Query" os),
     block "type" "Mutation" (rootFields "Mutation" os)])

/-- The extension of the schema, where there is a model at all. -/
def schemaAmendments (c : Context) (os : List ObjectType) : Except BuildError (List Amendment) :=
  if os.isEmpty then .ok []
  else
    match (c.document.property? Api.schemaId "Definition").bind Json.string? with
    | none => .error (.amendment "model" Api.schemaId)
    | some base =>
      .ok [⟨Api.schemaId, "Definition",
        .string (blocks [base, schemaText c.artifacts.enums os])⟩]

/-- The registered types that are models. -/
def types (a : Artifacts) : List ObjectType :=
  a.objectTypes.filter fun o => (o.directive? "model").isSome

def contribute (config : BuildConfig) (c : Context) :
    Except BuildError (Artifacts × Contribution) := do
  let os := types c.artifacts
  match checkAll os with
  | .error e => .error (.schema e)
  | .ok () => do
    let amendments ← schemaAmendments c os
    return (os.foldl (fun a o => a.registerModel (ofType o.name)) c.artifacts,
      { entries := os.flatMap fun o => entries config o.name, amendments := amendments })

def stage (config : BuildConfig) : Stage where
  name := "model"
  requires := [.api, .typeRegistry]
  provides := [.modelTables, .resolvers]
  directives := [⟨"model", .object⟩]
  contribute := contribute config

end Model

end SchemaStack
