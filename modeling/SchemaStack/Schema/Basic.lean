import SchemaStack.Entries
import SchemaStack.Decimal.Binary64
/-!
# Schemas

The tree of a schema text: object types and enums in declaration order, with the directives on
types and fields and the line each of them starts on.
-/

namespace SchemaStack

inductive TypeRef where
  | named (name : String)
  | list (item : TypeRef)
  | nonNull (inner : TypeRef)
deriving DecidableEq, Repr, Inhabited

namespace TypeRef

/-- The innermost name. -/
def base : TypeRef → String
  | .named n => n
  | .list t => t.base
  | .nonNull t => t.base

/-- A list, possibly behind an outer `!`. -/
def isList : TypeRef → Bool
  | .named _ => false
  | .list _ => true
  | .nonNull t => t.isList

def isNonNull : TypeRef → Bool
  | .nonNull _ => true
  | _ => false

/-- The type without an outer `!`. -/
def nullable : TypeRef → TypeRef
  | .nonNull t => t
  | t => t

end TypeRef

/-- A value written as the argument of a directive. -/
inductive Literal where
  | string (s : String)
  | int (n : Int)
  | float (x : Binary64)
  | bool (b : Bool)
  | enum (name : String)
  | null
  | list (items : List Literal)
  | object (fields : List (String × Literal))
deriving Repr, Inhabited

namespace Literal

/-- The text of a string or of a bare name. -/
def text? : Literal → Option String
  | .string s => some s
  | .enum s => some s
  | _ => none

def list? : Literal → Option (List Literal)
  | .list items => some items
  | _ => none

def object? : Literal → Option (Entries Literal)
  | .object fields => some fields
  | _ => none

end Literal

structure Directive where
  name : String
  arguments : Entries Literal
  line : Nat
deriving Repr, Inhabited

structure Field where
  name : String
  type : TypeRef
  directives : List Directive
  line : Nat
deriving Repr, Inhabited

structure ObjectType where
  name : String
  directives : List Directive
  fields : List Field
  line : Nat
deriving Repr, Inhabited

structure EnumType where
  name : String
  values : List String
  line : Nat
deriving DecidableEq, Repr, Inhabited

inductive Definition where
  | object (o : ObjectType)
  | enum (e : EnumType)
deriving Repr, Inhabited

structure Schema where
  definitions : List Definition
deriving Repr, Inhabited

/-- The first directive of a name counts. -/
def directiveNamed? (ds : List Directive) (name : String) : Option Directive :=
  ds.find? fun d => d.name == name

def Field.directive? (f : Field) (name : String) : Option Directive :=
  directiveNamed? f.directives name

namespace ObjectType

def directive? (o : ObjectType) (name : String) : Option Directive :=
  directiveNamed? o.directives name

def field? (o : ObjectType) (name : String) : Option Field :=
  o.fields.find? fun f => f.name == name

end ObjectType

namespace Definition

def name : Definition → String
  | .object o => o.name
  | .enum e => e.name

def line : Definition → Nat
  | .object o => o.line
  | .enum e => e.line

def object? : Definition → Option ObjectType
  | .object o => some o
  | .enum _ => none

def enum? : Definition → Option EnumType
  | .object _ => none
  | .enum e => some e

end Definition

namespace Schema

def objects (s : Schema) : List ObjectType := s.definitions.filterMap Definition.object?

def enums (s : Schema) : List EnumType := s.definitions.filterMap Definition.enum?

/-- Scalars that need no declaration. -/
def builtinScalars : List String :=
  ["ID", "String", "Int", "Float", "Boolean", "AWSDate", "AWSTime", "AWSDateTime",
   "AWSTimestamp", "AWSEmail", "AWSJSON", "AWSURL", "AWSPhone", "AWSIPAddress"]

def isBuiltinScalar (name : String) : Bool := builtinScalars.contains name

/-- The root types, which compilation generates. -/
def reservedTypes : List String := ["Query", "Mutation", "Subscription"]

/-- How deep list types and values may nest. -/
def maxNesting : Nat := 64

end Schema

end SchemaStack
