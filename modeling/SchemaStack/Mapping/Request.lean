import SchemaStack.Build.Contribution
import SchemaStack.Text.Lines
import SchemaStack.Text.Substitution
/-!
# Request mappings

The templates with which resolvers turn the call of a field into a request to a table. A template
is a JSON object with holes that the service evaluates, and commands in front of it.
-/

namespace SchemaStack.Mapping

open Text (lines)

/-- Members of an object, a list of lines each, with a comma after every one but the last. -/
def withCommas : List (List String) → List String
  | [] => []
  | [m] => m
  | m :: ms => m.dropLast ++ m.getLast?.toList.map (· ++ ",") ++ withCommas ms

/-- The object of a request: the version of the notation, the operation, and further members. -/
def object (operation : String) (members : List (List String)) : List String :=
  ["\x7b"] ++
    (withCommas (["\"version\": \"2017-02-28\""] ::
      ["\"operation\": \"" ++ operation ++ "\""] :: members)).map ("  " ++ ·) ++
    ["\x7d"]

/-- The key of an item, as an expression that evaluates to its `id`. -/
def key (expression : String) : List String :=
  ["\"key\": \x7b", "  \"id\": $util.dynamodb.toDynamoDBJson(" ++ expression ++ ")", "\x7d"]

/-- A condition on the item that is there already. -/
def condition (expression : String) : List String :=
  ["\"condition\": \x7b", "  \"expression\": \"" ++ expression ++ "\",",
   "  \"expressionNames\": \x7b \"#id\": \"id\" \x7d", "\x7d"]

/-- Limit and continuation of requests that answer with many items. -/
def paging : List (List String) :=
  [["\"limit\": $util.defaultIfNull($ctx.args.limit, 10)"],
   ["\"nextToken\": $util.toJson($util.defaultIfNullOrEmpty($ctx.args.nextToken, null))"]]

/-- A command that stamps the input with the current time. -/
def stamp (attr : String) : String :=
  "$util.qr($ctx.args.input.put(\"" ++ attr ++ "\", $util.time.nowISO8601()))"

def getRequest : String := lines (object "GetItem" [key "$ctx.args.id"])

def listRequest : String := lines (object "Scan" paging)

def createRequest : String :=
  lines ([stamp "createdAt", stamp "updatedAt"] ++
    object "PutItem"
      [key "$util.defaultIfNullOrBlank($ctx.args.input.id, $util.autoId())",
       ["\"attributeValues\": $util.dynamodb.toMapValuesJson($ctx.args.input)"],
       condition "attribute_not_exists(#id)"])

/-- Every member of the input but `id` becomes an assignment of the update. -/
def updateRequest : String :=
  lines ([stamp "updatedAt",
     "#set($update = \x7b \"expression\": \"SET\", \"expressionNames\": \x7b\x7d, " ++
       "\"expressionValues\": \x7b\x7d \x7d)",
     "#foreach($entry in $ctx.args.input.entrySet())",
     "#if($entry.key != \"id\")",
     "#set($update.expression = \"$update.expression #$entry.key = :$entry.key,\")",
     "$util.qr($update.expressionNames.put(\"#$entry.key\", $entry.key))",
     "$util.qr($update.expressionValues.put(\":$entry.key\", " ++
       "$util.dynamodb.toDynamoDB($entry.value)))",
     "#end",
     "#end",
     "#set($update.expression = $update.expression.replaceAll(\",$\", \"\"))"] ++
    object "UpdateItem"
      [key "$ctx.args.input.id", ["\"update\": $util.toJson($update)"],
       condition "attribute_exists(#id)"])

def deleteRequest : String :=
  lines (object "DeleteItem" [key "$ctx.args.input.id", condition "attribute_exists(#id)"])

def request : Operation → String
  | .get => getRequest
  | .list => listRequest
  | .create => createRequest
  | .update => updateRequest
  | .delete => deleteRequest

/-- The condition that updates and deletes carry, as it stands in their requests. -/
def existsCondition : String := "\n  ".intercalate (condition "attribute_exists(#id)")

/-- Queries an index for the items whose key is the `id` of the parent. A name of an index that
itself holds the mark of the key gets the key there, too. -/
def queryRequest (index attr : String) : String :=
  lines (object "Query"
    ([["\"index\": \"" ++ Text.replaceAll index "%KEY%" attr ++ "\""],
      ["\"query\": \x7b",
       "  \"expression\": \"#connectionAttribute = :connectionAttribute\",",
       "  \"expressionNames\": \x7b \"#connectionAttribute\": \"" ++ attr ++ "\" \x7d,",
       "  \"expressionValues\": \x7b \":connectionAttribute\": " ++
         "\x7b \"S\": \"$ctx.source.id\" \x7d \x7d",
       "\x7d"]] ++ paging))

/-- Fetches the item whose `id` is an attribute of the parent. -/
def itemRequest (attr : String) : String :=
  lines (object "GetItem"
    [key ("$util.defaultIfNullOrBlank($ctx.source." ++ attr ++ ", \"___xamznone____\")")])

/-- The response of every generated resolver. -/
def response : String := "$util.toJson($ctx.result)"

/-- The response of a resolver whose field is a list. -/
def itemsResponse : String := "$util.toJson($ctx.result.items)"

end SchemaStack.Mapping
