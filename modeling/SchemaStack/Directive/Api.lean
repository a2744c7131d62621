import SchemaStack.Build.Pipeline
import SchemaStack.Schema.Printer
/-!
# The API

The first stage: it registers the types of the schema and adds the API, its key and the schema.
-/

namespace SchemaStack.Api

def apiId : String := "GraphQLApi"
def keyId : String := "GraphQLApiKey"
def schemaId : String := "GraphQLSchema"

def api (name : String) : Resource :=
  ⟨.api, [("Name", .string name), ("AuthenticationType", .string "API_KEY")]⟩

def key (name : String) : Resource :=
  ⟨.apiKey, [("ApiId", attributeOf apiId "ApiId"), ("Description", .string (name ++ " API key"))]⟩

def schema (s : Schema) : Resource :=
  ⟨.schema, [("ApiId", attributeOf apiId "ApiId"), ("Definition", .string s.text)]⟩

def contribution (name : String) (s : Schema) : Contribution :=
  { entries := [(apiId, api name), (keyId, key name), (schemaId, schema s)] }

def stage (name : String) : Stage where
  name := "api"
  provides := [.api, .typeRegistry]
  contribute c := .ok (c.artifacts.registerTypes c.schema, contribution name c.schema)

end SchemaStack.Api
