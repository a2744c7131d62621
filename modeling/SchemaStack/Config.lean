/-!
# Build configuration

What a single build needs to know besides the schema.
-/

namespace SchemaStack

structure BuildConfig where
  apiName : String
  readCapacity : Nat := 5
  writeCapacity : Nat := 5
  connections : Bool := true
  /-- The user pool that authorization relies on, if there is one. It is never empty. -/
  userPool : Option String := none
deriving DecidableEq, Repr, Inhabited

namespace BuildConfig

/-- An empty ID stands for no user pool. -/
def poolOfText (id : String) : Option String := if id.isEmpty then none else some id

def withUserPool (c : BuildConfig) (id : String) : BuildConfig :=
  { c with userPool := poolOfText id }

end BuildConfig

end SchemaStack
