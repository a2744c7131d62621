import SchemaStack.Config
import SchemaStack.Json.Basic
import SchemaStack.Service
/-!
# Settings

File names, build defaults and defaults for table overrides. Every setting has a default.
-/

namespace SchemaStack

/-- Where things are inside a project and a resource directory. -/
structure Layout where
  /-- The category whose resources are compiled. -/
  category : String := "api"
  parametersFile : String := "parameters.json"
  templateFile : String := "cloudformation-template.json"
  schemaFile : String := "schema.graphql"
  /-- Where outputs go, inside the resource directory. -/
  buildDir : String := "build"
  /-- Relative to the project. -/
  backendDir : String := "amplify/backend"
  /-- Relative to the project. -/
  metaFile : String := "amplify/backend/amplify-meta.json"
deriving DecidableEq, Repr, Inhabited

structure BuildSettings where
  /-- The name of the API, if it is not that of the resource directory. -/
  apiName : Option String := none
  readCapacity : Nat := 5
  writeCapacity : Nat := 5
  connections : Bool := true
  /-- The parameter that holds the user pool. -/
  authParameter : String := "AuthCognitoUserPoolId"
deriving DecidableEq, Repr, Inhabited

structure OverrideSettings where
  provider : String := "awscloudformation"
  /-- The category of project metadata that holds storage resources. -/
  storageCategory : String := "storage"
  service : StorageService := .dynamoDb
  /-- Whether new storage resources can be set up. -/
  storagePlugin : Bool := true
deriving DecidableEq, Repr, Inhabited

structure Settings where
  layout : Layout := {}
  build : BuildSettings := {}
  override : OverrideSettings := {}
deriving DecidableEq, Repr, Inhabited

/-- The configuration of a build with the given parameters. The user pool is a parameter that
holds a text. -/
def BuildSettings.resolve (s : BuildSettings) (parameters : Entries Json) (defaultName : String) :
    BuildConfig where
  apiName := s.apiName.getD defaultName
  readCapacity := s.readCapacity
  writeCapacity := s.writeCapacity
  connections := s.connections
  userPool :=
    ((parameters.get? s.authParameter).bind Json.string?).bind BuildConfig.poolOfText

end SchemaStack
