import SchemaStack.Json.Basic
/-!
# Resources

A resource of a template: what it is, and its properties in order. Values of properties refer to
other resources by their logical IDs.
-/

namespace SchemaStack

inductive ResourceType where
  | api
  | schema
  | apiKey
  | dataSource
  | resolver
  | role
  | table
deriving DecidableEq, Repr, Inhabited

namespace ResourceType

def all : List ResourceType := [.api, .schema, .apiKey, .dataSource, .resolver, .role, .table]

def tag : ResourceType → String
  | .api => "AWS::AppSync::GraphQLApi"
  | .schema => "AWS::AppSync::GraphQLSchema"
  | .apiKey => "AWS::AppSync::ApiKey"
  | .dataSource => "AWS::AppSync::DataSource"
  | .resolver => "AWS::AppSync::Resolver"
  | .role => "AWS::IAM::Role"
  | .table => "AWS::DynamoDB::Table"

def ofTag? (s : String) : Option ResourceType := all.find? fun t => t.tag == s

theorem tag_of_ofTag? {s : String} {t : ResourceType} (h : ofTag? s = some t) : t.tag = s := by
  have := List.find?_some h
  simpa using this

end ResourceType

structure Resource where
  type : ResourceType
  properties : Entries Json
deriving Repr, Inhabited

namespace Resource

def property? (r : Resource) (key : String) : Option Json := r.properties.get? key

def set (r : Resource) (key : String) (value : Json) : Resource :=
  { r with properties := r.properties.insert key value }

end Resource

/-- An attribute of a resource, to be filled in when the template is deployed. -/
def attributeOf (id name : String) : Json :=
  .object [("Fn::GetAtt", .array [.string id, .string name])]

/-- A reference to a resource or to a parameter of the deployment. -/
def referenceTo (id : String) : Json := .object [("Ref", .string id)]

end SchemaStack
