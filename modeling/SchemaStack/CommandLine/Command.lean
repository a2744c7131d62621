import SchemaStack.CommandLine.Arguments
import SchemaStack.Filesystem.Path
/-!
# Commands

The commands that there are, and which of them a list of arguments stands for.
-/

namespace SchemaStack

inductive Command where
  /-- Writes a settings file with every default spelled out. -/
  | init (dir : Path)
  /-- Compiles a resource directory. -/
  | compile (resourceDir : Option Path) (projectDir : Path) (settings : Option Path)
      (inventory : Option Path) (keepTables : Bool)
  /-- Compiles a schema without writing anything. -/
  | validate (schema : Path) (pool : Option String) (settings : Option Path)
  /-- Lists the resources of a template that have a type. -/
  | classify (template : Path) (tag : String)
deriving DecidableEq, Repr

namespace Command

open CommandLine

def initSpec : Spec := ⟨[], true⟩

def compileSpec : Spec where
  options := [⟨"resource-dir", none, .path⟩, ⟨"project-dir", none, .path⟩,
    ⟨"config", some 'c', .path⟩, ⟨"inventory", none, .path⟩, ⟨"no-config", none, .flag⟩]
  operand := false

def validateSpec : Spec where
  options := [⟨"schema", some 's', .path⟩, ⟨"auth-pool-id", none, .text⟩,
    ⟨"config", some 'c', .path⟩]
  operand := false

def classifySpec : Spec where
  options := [⟨"template", some 't', .path⟩, ⟨"type", none, .text⟩]
  operand := false

/-- A value that has to be given. -/
def required (g : Given) (name : String) : Except Stop String :=
  match g.value? name with
  | none => .error .refused
  | some v => .ok v

def path? (g : Given) (name : String) : Option Path := (g.value? name).map Path.mk

def names : List String := ["init", "compile", "validate", "classify"]

/-- The command after its name. -/
def ofOptions (name : String) (as : List String) : Except Stop Command :=
  match name with
  | "init" => do
    let g ← scan initSpec .none as
    return .init ⟨g.operand.getD "."⟩
  | "compile" => do
    let g ← scan compileSpec .none as
    return .compile (path? g "resource-dir") ((path? g "project-dir").getD ⟨"."⟩)
      (path? g "config") (path? g "inventory") (g.has "no-config")
  | "validate" => do
    let g ← scan validateSpec .none as
    return .validate ⟨← required g "schema"⟩ (g.value? "auth-pool-id") (path? g "config")
  | "classify" => do
    let g ← scan classifySpec .none as
    return .classify ⟨← required g "template"⟩ (← required g "type")
  | _ => .error .refused

/-- Help is about the program, one of its commands, or help itself. -/
def helpOn : List String → Stop
  | [] => .helped
  | [name] => if names.contains name || name == "help" then .helped else .refused
  | _ => .refused

/-- An argument in front of any command that asks about the program itself. -/
def asksAboutProgram (a : String) : Bool :=
  match a.toList with
  | '-' :: 'h' :: _ => true
  | '-' :: 'V' :: _ => true
  | _ => a == "--help" || a == "--version"

def ofArguments : List String → Except Stop Command
  | [] => .error .refused
  | "help" :: as => .error (helpOn as)
  | a :: as => if asksAboutProgram a then .error .helped else ofOptions a as

end Command

end SchemaStack
