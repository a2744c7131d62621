import SchemaStack.Schema.Basic
import SchemaStack.Fault
/-!
# Structural validity

Definitions have names of their own that are not built in or reserved, enums have values, object
types have fields of different names, and every reference reaches a scalar or a definition,
wherever in the text it stands. Which directives are legal is not decided here.
-/

namespace SchemaStack

namespace Validity

def fail {α : Type} (f : ValidityFault) (line : Nat) : Except SchemaError α :=
  .error ((Fault.invalid f).onLine line)

/-- Checks the names of the definitions after those in `seen`, which holds names and lines. -/
def definitions (seen : Entries Nat) : List Definition → Except SchemaError Unit
  | [] => .ok ()
  | d :: ds =>
    if Schema.reservedTypes.contains d.name then fail (.reservedName d.name) d.line
    else if Schema.isBuiltinScalar d.name then fail (.builtinName d.name) d.line
    else
      match seen.get? d.name with
      | some first => fail (.duplicateType d.name first) d.line
      | none => definitions (seen ++ [(d.name, d.line)]) ds

def enums : List EnumType → Except SchemaError Unit
  | [] => .ok ()
  | e :: es => if e.values.isEmpty then fail (.emptyEnum e.name) e.line else enums es

/-- Checks the fields after those named in `seen` against the declared names. -/
def fields (declared : List String) (type : String) (seen : List String) :
    List Field → Except SchemaError Unit
  | [] => .ok ()
  | f :: fs =>
    if seen.contains f.name then fail (.duplicateField type f.name) f.line
    else if Schema.isBuiltinScalar f.type.base || declared.contains f.type.base then
      fields declared type (seen ++ [f.name]) fs
    else fail (.unknownReference type f.name f.type.base) f.line

def objects (declared : List String) : List ObjectType → Except SchemaError Unit
  | [] => .ok ()
  | o :: os =>
    if o.fields.isEmpty then fail (.emptyType o.name) o.line
    else
      match fields declared o.name [] o.fields with
      | .error e => .error e
      | .ok () => objects declared os

end Validity

namespace Schema

/-- The names that the schema declares, in order. -/
def names (s : Schema) : List String := s.definitions.map Definition.name

def check (s : Schema) : Except SchemaError Unit := do
  Validity.definitions [] s.definitions
  Validity.enums s.enums
  Validity.objects s.names s.objects

end Schema

end SchemaStack
