import SchemaStack.Directive.Model
import SchemaStack.Mapping.Guard
/-!
# Authorization

The last stage: it moves the API to a user pool and guards the resolvers of every model type that
has `@auth` rules. It adds no resources.
-/

namespace SchemaStack

namespace AuthRules

/-- The field that an owner rule without an `ownerField` means. -/
def defaultOwnerField : String := "owner"

def empty : AuthRules := ⟨none, []⟩

def addOwner (acc : AuthRules) (rule : Entries Literal) : Except RuleFault AuthRules :=
  if acc.ownerField.isSome then .error .secondOwner
  else
    match rule.get? "ownerField" with
    | none => .ok { acc with ownerField := some defaultOwnerField }
    | some v =>
      match v.text? with
      | none => .error .ownerFieldNotText
      | some field => .ok { acc with ownerField := some field }

/-- Adds the names that are not there yet. -/
def addNames (acc : AuthRules) : List Literal → Except RuleFault AuthRules
  | [] => .ok acc
  | g :: gs =>
    match g.text? with
    | none => .error .groupNotText
    | some name =>
      if acc.groups.contains name then addNames acc gs
      else addNames { acc with groups := acc.groups ++ [name] } gs

def addGroups (acc : AuthRules) (rule : Entries Literal) : Except RuleFault AuthRules :=
  match (rule.get? "groups").bind Literal.list? with
  | none => .error .missingGroups
  | some [] => .error .missingGroups
  | some gs => addNames acc gs

def addRule (acc : AuthRules) (rule : Literal) : Except RuleFault AuthRules :=
  match rule.object? with
  | none => .error .ruleNotObject
  | some fields =>
    match (fields.get? "allow").bind Literal.text? with
    | none => .error .missingStrategy
    | some strategy =>
      if strategy = "owner" then acc.addOwner fields
      else if strategy = "groups" then acc.addGroups fields
      else .error (.unsupportedStrategy strategy)

def addRules (acc : AuthRules) : List Literal → Except RuleFault AuthRules
  | [] => .ok acc
  | r :: rs =>
    match acc.addRule r with
    | .error f => .error f
    | .ok acc => addRules acc rs

/-- The rules that the arguments of an `@auth` directive spell out. -/
def ofArguments (arguments : Entries Literal) : Except RuleFault AuthRules :=
  match arguments.keys.find? (· ≠ "rules") with
  | some arg => .error (.unknownArgument arg)
  | none =>
    match (arguments.get? "rules").bind Literal.list? with
    | none => .error .rulesNotList
    | some [] => .error .noRules
    | some rules => addRules empty rules

/-- The rules of a type, if it has an `@auth` directive. -/
def ofType? (o : ObjectType) : Except SchemaError (Option AuthRules) :=
  match o.directive? "auth" with
  | none => .ok none
  | some d =>
    match ofArguments d.arguments with
    | .error f => .error ((Fault.rule o.name f).onLine d.line)
    | .ok rules => .ok (some rules)

end AuthRules

namespace Auth

/-- The user pool of the API. -/
def userPool (id : String) : Json :=
  .object [("UserPoolId", .string id), ("AwsRegion", referenceTo "AWS::Region"),
    ("DefaultAction", .string "ALLOW")]

def apiAmendments (pool : String) : List Amendment :=
  [⟨Api.apiId, "AuthenticationType", .string "AMAZON_COGNITO_USER_POOLS"⟩,
   ⟨Api.apiId, "UserPoolConfig", userPool pool⟩]

/-- Guards one resolver, if it is there. -/
def guard (d : Document) (rules : AuthRules) (op : Operation) (id : String) : List Amendment :=
  match d.get? id with
  | none => []
  | some r =>
    let request := ((r.property? "RequestMappingTemplate").bind Json.string?).getD ""
    ⟨id, "RequestMappingTemplate", .string (Guard.request op rules request)⟩ ::
      ((Guard.response? op rules).map fun response =>
        ⟨id, "ResponseMappingTemplate", .string response⟩).toList

/-- Guards the resolvers of the types that have rules. -/
def guards (c : Context) : List ObjectType → Except SchemaError (List Amendment)
  | [] => .ok []
  | o :: os => do
    match ← AuthRules.ofType? o with
    | none => guards c os
    | some rules =>
      match c.artifacts.model? o.name with
      | none => .error ((Fault.authWithoutModel o.name).onLine o.line)
      | some m =>
        return m.resolvers.flatMap (fun (op, id) => guard c.document rules op id) ++
          (← guards c os)

def contribute (pool : String) (c : Context) : Except BuildError (Artifacts × Contribution) :=
  match guards c c.artifacts.objectTypes with
  | .error e => .error (.schema e)
  | .ok as => .ok (c.artifacts, { amendments := apiAmendments pool ++ as })

def stage (pool : String) : Stage where
  name := "auth"
  requires := [.api, .resolvers]
  directives := [⟨"auth", .object⟩]
  terminal := true
  contribute := contribute pool

end Auth

end SchemaStack
