import SchemaStack.Document.Basic
import SchemaStack.Schema.Basic
import SchemaStack.Fault
/-!
# Contributions

What one stage of a build adds to the document, what it leaves for the stages after it, and the
reasons for which a build ends without a document.
-/

namespace SchemaStack

/-- Sets one property of a resource that an earlier stage added. -/
structure Amendment where
  target : String
  property : String
  value : Json
deriving Repr, Inhabited

structure Contribution where
  entries : List (String × Resource) := []
  amendments : List Amendment := []
deriving Repr, Inhabited

/-- The operations that every model type has a resolver for. -/
inductive Operation where
  | get
  | list
  | create
  | update
  | delete
deriving DecidableEq, Repr, Inhabited

namespace Operation

def all : List Operation := [.get, .list, .create, .update, .delete]

def label : Operation → String
  | .get => "Get"
  | .list => "List"
  | .create => "Create"
  | .update => "Update"
  | .delete => "Delete"

/-- The root type whose field the resolver of an operation serves. -/
def rootType : Operation → String
  | .get => "Query"
  | .list => "Query"
  | .create => "Mutation"
  | .update => "Mutation"
  | .delete => "Mutation"

end Operation

/-- The resources of one model type. -/
structure Model where
  typeName : String
  table : String
  role : String
  dataSource : String
  resolvers : List (Operation × String)
deriving DecidableEq, Repr, Inhabited

/-- What stages have registered so far for the stages after them. -/
structure Artifacts where
  types : Entries ObjectType := []
  enums : List String := []
  models : Entries Model := []
  connections : List String := []
deriving Repr, Inhabited

namespace Artifacts

/-- Registers every object type and enum of a schema. -/
def registerTypes (a : Artifacts) (s : Schema) : Artifacts :=
  { a with
    types := s.objects.foldl (fun ts o => ts.insert o.name o) a.types
    enums := s.enums.map EnumType.name }

def registerModel (a : Artifacts) (m : Model) : Artifacts :=
  { a with models := a.models.insert m.typeName m }

def registerConnection (a : Artifacts) (id : String) : Artifacts :=
  { a with connections := a.connections ++ [id] }

def objectTypes (a : Artifacts) : List ObjectType := a.types.map Prod.snd

def model? (a : Artifacts) (typeName : String) : Option Model := a.models.get? typeName

end Artifacts

/-- What a stage can depend on or make available. -/
inductive Capability where
  | api
  | typeRegistry
  | modelTables
  | resolvers
  | connections
deriving DecidableEq, Repr, Inhabited

def Capability.label : Capability → String
  | .api => "api"
  | .typeRegistry => "type-registry"
  | .modelTables => "model-tables"
  | .resolvers => "resolvers"
  | .connections => "connections"

/-- Reasons for which a list of stages is no pipeline. -/
inductive PipelineFault where
  | repeatedStage (name : String)
  | missingCapability (name : String) (capability : Capability)
  | notLast (name : String)
deriving DecidableEq, Repr

def PipelineFault.message : PipelineFault → String
  | .repeatedStage name => "stage '" ++ name ++ "' appears more than once"
  | .missingCapability name capability =>
    "stage '" ++ name ++ "' requires '" ++ capability.label ++
      "', which no earlier stage provides"
  | .notLast name => "stage '" ++ name ++ "' must run last"

inductive BuildError where
  | schema (e : SchemaError)
  /-- Two contributions claim one logical ID. -/
  | collision (id first second : String)
  | pipeline (f : PipelineFault)
  /-- A stage amends a resource that is not there. -/
  | amendment (stage target : String)
deriving DecidableEq, Repr

def BuildError.message : BuildError → String
  | .schema e => e.message
  | .collision id first second =>
    "logical ID '" ++ id ++ "' contributed by both '" ++ first ++ "' and '" ++ second ++ "'"
  | .pipeline f => "invalid transformer pipeline: " ++ f.message
  | .amendment stage target =>
    "stage '" ++ stage ++ "' amends unknown resource '" ++ target ++ "'"

end SchemaStack
