import SchemaStack.Resource
/-!
# Storage services

The services whose generated tables may be replaced.
-/

namespace SchemaStack

inductive StorageService where
  | dynamoDb
deriving DecidableEq, Repr, Inhabited

namespace StorageService

/-- The service as project metadata and messages name it. -/
def label : StorageService → String
  | .dynamoDb => "DynamoDB"

/-- What the names of new resources start with. -/
def stem : StorageService → String
  | .dynamoDb => "dynamodb"

/-- The type of the tables that the service keeps. -/
def resourceType : StorageService → ResourceType
  | .dynamoDb => .table

end StorageService

end SchemaStack
