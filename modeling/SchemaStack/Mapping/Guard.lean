import SchemaStack.Mapping.Request
import SchemaStack.Json.Printer
/-!
# Guards

What authorization rules add to the mappings of a resolver. The request establishes whether the
caller is in one of the groups and remembers it for the response. An owner is written on create,
is a condition of updates and deletes, and filters what is read; without an owner rule only the
groups count.
-/

namespace SchemaStack

/-- The rules of one type: the field that holds the owner, and the groups that may do all. -/
structure AuthRules where
  ownerField : Option String
  groups : List String
deriving DecidableEq, Repr, Inhabited

namespace Guard

/-- Lines that each end with a newline. -/
def terminated (ls : List String) : String := String.join (ls.map (· ++ "\n"))

/-- Finds out whether the caller is in one of the groups. -/
def membership (groups : List String) : List String :=
  if groups.isEmpty then []
  else
    ["#set($userGroups = $util.defaultIfNull($ctx.identity.claims.get(\"cognito:groups\"), []))",
     "#foreach($group in " ++ (Json.array (groups.map .string)).compact ++ ")",
     "#if($userGroups.contains($group))",
     "#set($isStaticGroupAuthorized = true)",
     "#end",
     "#end"]

/-- The front of every guarded request. -/
def groupCheck (groups : List String) : String :=
  terminated (["#set($isStaticGroupAuthorized = false)"] ++ membership groups ++
    ["$util.qr($ctx.stash.put(\"isStaticGroupAuthorized\", $isStaticGroupAuthorized))"])

/-- Refuses whoever is in none of the groups. -/
def membersOnly : String :=
  terminated ["#if(!$isStaticGroupAuthorized)", "$util.unauthorized()", "#end"]

/-- Makes the caller the owner of a new item. -/
def writeOwner (owner : String) : String :=
  terminated ["#if(!$isStaticGroupAuthorized)",
    "$util.qr($ctx.args.input.put(\"" ++ owner ++ "\", $ctx.identity.username))", "#end"]

/-- The condition under which an item may be changed: it exists and is the caller's own. -/
def ownerCondition (owner : String) : String :=
  terminated
    ["#set($authCondition = \x7b \"expression\": \"attribute_exists(#id)\", " ++
       "\"expressionNames\": \x7b \"#id\": \"id\" \x7d \x7d)",
     "#if(!$isStaticGroupAuthorized)",
     "#set($authCondition.expression = \"attribute_exists(#id) AND #owner = :owner\")",
     "$util.qr($authCondition.expressionNames.put(\"#owner\", \"" ++ owner ++ "\"))",
     "$util.qr($authCondition.put(\"expressionValues\", \x7b \":owner\": " ++
       "$util.dynamodb.toDynamoDB($ctx.identity.username) \x7d))",
     "#end"]

/-- A request whose condition is computed by the guard in front of it. -/
def withOwnerCondition (request : String) : String :=
  Text.replaceAll request Mapping.existsCondition
    "\"condition\": $util.toJson($authCondition)"

def request (op : Operation) (rules : AuthRules) (mapping : String) : String :=
  groupCheck rules.groups ++
    match rules.ownerField with
    | none => membersOnly ++ mapping
    | some owner =>
      match op with
      | .get => mapping
      | .list => mapping
      | .create => writeOwner owner ++ mapping
      | .update => ownerCondition owner ++ withOwnerCondition mapping
      | .delete => ownerCondition owner ++ withOwnerCondition mapping

/-- Shows an item only to its owner and to members of the groups. -/
def itemResponse (owner : String) : String :=
  Text.lines
    ["#if($util.isNull($ctx.result) || $ctx.stash.isStaticGroupAuthorized || $ctx.result." ++
       owner ++ " == $ctx.identity.username)",
     Mapping.response, "#else", "$util.unauthorized()", "#end"]

/-- Keeps of a list the items that the caller may see. -/
def itemsResponse (owner : String) : String :=
  Text.lines
    ["#set($items = [])",
     "#foreach($item in $ctx.result.items)",
     "#if($ctx.stash.isStaticGroupAuthorized || $item." ++ owner ++ " == $ctx.identity.username)",
     "$util.qr($items.add($item))",
     "#end",
     "#end",
     "$util.toJson(\x7b \"items\": $items, \"nextToken\": $ctx.result.nextToken \x7d)"]

/-- The response of an operation that reads, where there is an owner rule. -/
def response? (op : Operation) (rules : AuthRules) : Option String :=
  rules.ownerField.bind fun owner =>
    match op with
    | .get => some (itemResponse owner)
    | .list => some (itemsResponse owner)
    | _ => none

end Guard

end SchemaStack
