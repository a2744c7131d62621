import SchemaStack.Directive.Connection
import SchemaStack.Directive.Auth
/-!
# The standard pipeline

The stages that come with the compiler, in their order. Relations and authorization are left out
where the configuration does not ask for them.
-/

namespace SchemaStack

inductive StandardStage where
  | api
  | model
  | connection
  | auth
deriving DecidableEq, Repr, Inhabited

namespace StandardStage

def all : List StandardStage := [.api, .model, .connection, .auth]

def name : StandardStage → String
  | .api => "api"
  | .model => "model"
  | .connection => "connection"
  | .auth => "auth"

/-- The stage itself, if the configuration includes it. -/
def build? (c : BuildConfig) : StandardStage → Option Stage
  | .api => some (Api.stage c.apiName)
  | .model => some (Model.stage c)
  | .connection => if c.connections then some Connection.stage else none
  | .auth => c.userPool.map Auth.stage

def enabled (c : BuildConfig) (k : StandardStage) : Bool := (k.build? c).isSome

end StandardStage

namespace Pipeline

def standardStages (c : BuildConfig) : List Stage :=
  StandardStage.all.filterMap (StandardStage.build? c)

def standard (c : BuildConfig) : Except BuildError Pipeline := ofStages (standardStages c)

end Pipeline

end SchemaStack
