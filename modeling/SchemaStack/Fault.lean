import SchemaStack.Schema.Token
import SchemaStack.Text.Quoted
/-!
# Faults

Every reason for which a schema is refused, and the message of each. Faults of the text come from
reading and checking it; faults of directives come from the stages that give them their meaning.
-/

namespace SchemaStack

inductive LexicalFault where
  | unterminatedBlockString
  | unterminatedString
  /-- The character after the backslash, if there is one. -/
  | invalidEscape (next : Option Char)
  | invalidNumber (text : String)
  | unexpectedCharacter (c : Char)
deriving DecidableEq, Repr

def LexicalFault.message : LexicalFault → String
  | .unterminatedBlockString => "unterminated block string"
  | .unterminatedString => "unterminated string"
  | .invalidEscape none => "invalid escape sequence None"
  | .invalidEscape (some c) => "invalid escape sequence Some(" ++ Text.quotedChar c ++ ")"
  | .invalidNumber text => "invalid number '" ++ text ++ "'"
  | .unexpectedCharacter c => "unexpected character '" ++ String.singleton c ++ "'"

inductive SyntaxFault where
  | unexpectedEnd
  | expectedPunct (c : Char) (found : Token)
  | expectedName (found : Token)
  | unsupportedDefinition (keyword : String)
  | expectedDefinition (found : String)
  | interfaces (type : String)
  | fieldArguments (type field : String)
  | enumDirectives (type : String)
  | typeTooDeep
  | valueTooDeep
  | duplicateArgument (directive argument : String)
  | expectedValue (found : Token)
deriving DecidableEq, Repr

def SyntaxFault.message : SyntaxFault → String
  | .unexpectedEnd => "unexpected end of schema"
  | .expectedPunct c found =>
    "expected '" ++ String.singleton c ++ "', found " ++ found.describe
  | .expectedName found => "expected a name, found " ++ found.describe
  | .unsupportedDefinition keyword => "'" ++ keyword ++ "' definitions are not supported"
  | .expectedDefinition found => "expected a type definition, found '" ++ found ++ "'"
  | .interfaces type => "type '" ++ type ++ "': interfaces are not supported"
  | .fieldArguments type field =>
    "field '" ++ type ++ "." ++ field ++ "': field arguments are not supported"
  | .enumDirectives type => "enum '" ++ type ++ "': directives on enums are not supported"
  | .typeTooDeep => "type nesting too deep"
  | .valueTooDeep => "value nesting too deep"
  | .duplicateArgument directive argument =>
    "@" ++ directive ++ ": duplicate argument '" ++ argument ++ "'"
  | .expectedValue found => "expected a value, found " ++ found.describe

inductive ValidityFault where
  | reservedName (name : String)
  | builtinName (name : String)
  | duplicateType (name : String) (first : Nat)
  | emptyEnum (name : String)
  | emptyType (name : String)
  | duplicateField (type field : String)
  | unknownReference (type field target : String)
deriving DecidableEq, Repr

def ValidityFault.message : ValidityFault → String
  | .reservedName name => "'" ++ name ++ "' is generated and may not be declared"
  | .builtinName name => "'" ++ name ++ "' redefines a built-in scalar"
  | .duplicateType name first =>
    "type '" ++ name ++ "' already declared at line " ++ toString first
  | .emptyEnum name => "enum '" ++ name ++ "' has no values"
  | .emptyType name => "type '" ++ name ++ "' has no fields"
  | .duplicateField type field => "field '" ++ type ++ "." ++ field ++ "' declared twice"
  | .unknownReference type field target =>
    "field '" ++ type ++ "." ++ field ++ "' references unknown type '" ++ target ++ "'"

/-- Where a directive stands. -/
inductive Location where
  | object
  | field
deriving DecidableEq, Repr, Inhabited

def Location.label : Location → String
  | .object => "types"
  | .field => "fields"

inductive DirectiveFault where
  | unsupported (name : String)
  | misplaced (name : String) (location : Location)
deriving DecidableEq, Repr

def DirectiveFault.message : DirectiveFault → String
  | .unsupported name =>
    "directive @" ++ name ++ " is not supported by the configured transformers"
  | .misplaced name location => "directive @" ++ name ++ " is not allowed on " ++ location.label

inductive ModelFault where
  | arguments
  | missingId
deriving DecidableEq, Repr

def ModelFault.message (type : String) : ModelFault → String
  | .arguments => "@model on '" ++ type ++ "' takes no arguments"
  | .missingId => "@model type '" ++ type ++ "' must declare 'id: ID!'"

inductive ConnectionFault where
  | outsideModel (type field : String)
  | notAModel (type field target : String)
  | unknownArgument (type field argument : String)
  | nameNotText (type field : String)
  | manyToMany (name : String)
  | duplicateIndex (index target first second : String)
deriving DecidableEq, Repr

def ConnectionFault.message : ConnectionFault → String
  | .outsideModel type field =>
    "@connection field '" ++ type ++ "." ++ field ++ "' must belong to a @model type"
  | .notAModel type field target =>
    "@connection field '" ++ type ++ "." ++ field ++ "' must reference a @model type, found '" ++
      target ++ "'"
  | .unknownArgument type field argument =>
    "@connection on '" ++ type ++ "." ++ field ++ "': unknown argument '" ++ argument ++ "'"
  | .nameNotText type field =>
    "@connection on '" ++ type ++ "." ++ field ++ "': name must be a string"
  | .manyToMany name =>
    "@connection '" ++ name ++ "': many-to-many connections are not supported"
  | .duplicateIndex index target first second =>
    "@connection index '" ++ index ++ "' on '" ++ target ++ "' is declared by both '" ++ first ++
      "' and '" ++ second ++ "'"

/-- Faults in the rules of an `@auth` directive. -/
inductive RuleFault where
  | unknownArgument (argument : String)
  | rulesNotList
  | noRules
  | ruleNotObject
  | missingStrategy
  | secondOwner
  | ownerFieldNotText
  | missingGroups
  | groupNotText
  | unsupportedStrategy (strategy : String)
deriving DecidableEq, Repr

def RuleFault.detail : RuleFault → String
  | .unknownArgument argument => "unknown argument '" ++ argument ++ "'"
  | .rulesNotList => "rules must be a list"
  | .noRules => "at least one rule is required"
  | .ruleNotObject => "each rule must be an object"
  | .missingStrategy => "each rule needs an 'allow' strategy"
  | .secondOwner => "only one owner rule is allowed"
  | .ownerFieldNotText => "ownerField must be a string"
  | .missingGroups => "groups rule needs a non-empty 'groups' list"
  | .groupNotText => "group names must be strings"
  | .unsupportedStrategy strategy => "unsupported auth strategy '" ++ strategy ++ "'"

inductive Fault where
  | lexical (f : LexicalFault)
  | syntactic (f : SyntaxFault)
  | invalid (f : ValidityFault)
  | directive (f : DirectiveFault)
  | model (type : String) (f : ModelFault)
  | connection (f : ConnectionFault)
  | rule (type : String) (f : RuleFault)
  /-- An `@auth` directive on a type without a table. -/
  | authWithoutModel (type : String)
  /-- A reason that only the stage which raised it knows. -/
  | other (message : String)
deriving DecidableEq, Repr

def Fault.message : Fault → String
  | .lexical f => f.message
  | .syntactic f => f.message
  | .invalid f => f.message
  | .directive f => f.message
  | .model type f => f.message type
  | .connection f => f.message
  | .rule type f => "@auth on '" ++ type ++ "': " ++ f.detail
  | .authWithoutModel type => "@auth type '" ++ type ++ "' must also be a @model type"
  | .other message => message

/-- A fault and the line of the schema text it is about. -/
structure SchemaError where
  fault : Fault
  line : Option Nat
deriving DecidableEq, Repr

def SchemaError.message (e : SchemaError) : String :=
  let place := match e.line with
    | none => ""
    | some l => " (line " ++ toString l ++ ")"
  "schema error" ++ place ++ ": " ++ e.fault.message

namespace Fault

def onLine (f : Fault) (line : Nat) : SchemaError := ⟨f, some line⟩

end Fault

end SchemaStack
