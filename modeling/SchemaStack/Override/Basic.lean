import SchemaStack.Inventory
import SchemaStack.Service
/-!
# Table overrides

A generated table may be replaced by one of the project, by a new one, or by one that is deployed
already. Tables of the project are referred to by their resource; deployed ones by their ARN.
-/

namespace SchemaStack

/-- Where a replacement comes from. -/
inductive TableSource where
  | currentProject
  | newResource
  | cloudResource
deriving DecidableEq, Repr, Inhabited

namespace TableSource

def all : List TableSource := [.currentProject, .newResource, .cloudResource]

def name : TableSource → String
  | .currentProject => "currentProject"
  | .newResource => "newResource"
  | .cloudResource => "cloudResource"

/-- The source as a menu offers it. -/
def label (service : StorageService) : TableSource → String
  | .currentProject => "Use " ++ service.label ++ " table configured in the current project"
  | .newResource => "Create a new " ++ service.label ++ " table"
  | .cloudResource => "Use a " ++ service.label ++ " table already deployed on AWS"

end TableSource

/-- An attribute of a resource of the project. -/
structure AttributeReference where
  resource : String
  name : String
deriving DecidableEq, Repr, Inhabited

namespace AttributeReference

/-- The ARN of a storage resource, which the project knows by category and name together. -/
def storageArn (category name : String) : AttributeReference := ⟨category ++ name, "Arn"⟩

def toJson (r : AttributeReference) : Json := attributeOf r.resource r.name

end AttributeReference

inductive Replacement where
  | reused (name : String) (reference : AttributeReference)
  | added (name : String) (reference : AttributeReference)
  | deployed (table : DeployedTable)
deriving DecidableEq, Repr, Inhabited

namespace Replacement

def source : Replacement → TableSource
  | .reused .. => .currentProject
  | .added .. => .newResource
  | .deployed _ => .cloudResource

def resourceName : Replacement → String
  | .reused name _ => name
  | .added name _ => name
  | .deployed t => t.resourceName

/-- What would stand in a template in place of the generated table. -/
def value : Replacement → Json
  | .reused _ r => r.toJson
  | .added _ r => r.toJson
  | .deployed t => .string t.arn

end Replacement

structure TableOverride where
  table : String
  replacement : Replacement
deriving DecidableEq, Repr, Inhabited

end SchemaStack
