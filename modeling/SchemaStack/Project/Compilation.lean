import SchemaStack.Directive.Standard
import SchemaStack.Document.Classification
import SchemaStack.Project.Files
/-!
# Compiling a resource directory

A run finds the resource directory, compiles its schema, writes the template and the schema to be
deployed, holds a session about the generated tables, and saves the parameters. Nothing is
written before the schema has been compiled, and what the session decides goes into the report
only.
-/

namespace SchemaStack

structure CompileOptions where
  /-- Without it the directory is that of the first API in the metadata. -/
  resourceDir : Option Path
  projectDir : Path
  /-- In place of the parameters file. -/
  parameters : Option (Entries Json)
  /-- Whether tables are left as they are generated. -/
  keepTables : Bool
deriving Repr

structure Report where
  resourceDir : Path
  templatePath : Path
  digest : String
  /-- Whether the template differs from the one that was there. -/
  templateChanged : Bool
  resources : Nat
  tables : List String
  overrides : Session.Outcome
deriving Repr

namespace Compilation

/-- What is noted in metadata about the APIs that can be compiled. -/
def apiService : String := "AppSync"

variable {σ : Type} (s : Settings) (o : CompileOptions)

/-- The directory to compile, if the project has one. -/
def locate (sources : TableSources σ) (w : World σ) :
    Except ProjectError (Option Path) × World σ :=
  match o.resourceDir with
  | some dir => (.ok (some dir), w)
  | none =>
    match w.ask sources.loadMeta with
    | (.error e, w) => (.error (.source e), w)
    | (.ok m, w) =>
      (.ok ((m.resourcesOf s.layout.category apiService).head?.map fun name =>
        ((o.projectDir.join s.layout.backendDir).join s.layout.category).join name), w)

/-- The name of an API after its directory. -/
def nameAfter (dir : Path) : String := dir.fileName?.getD "api"

/-- The paths of a run, its parameters and the compiled document. -/
structure Plan where
  resourceDir : Path
  parametersPath : Path
  templatePath : Path
  deployedSchemaPath : Path
  parameters : Entries Json
  document : Document

/-- Compiles a text as the settings say. -/
def compileText (c : BuildConfig) (text : String) : Except BuildError Document :=
  match Pipeline.standard c with
  | .error e => .error e
  | .ok p => p.compile text

def plan (fs : Filesystem) (dir : Path) : Except ProjectError Plan :=
  let parametersPath := dir.join s.layout.parametersFile
  let parameters := o.parameters.getD (fs.loadParameters parametersPath)
  let schemaPath := dir.join s.layout.schemaFile
  match fs.readText schemaPath with
  | .error f => .error (.file ⟨schemaPath, f⟩)
  | .ok text =>
    match compileText (s.build.resolve parameters (nameAfter dir)) text with
    | .error e => .error (.build e)
    | .ok document => .ok {
        resourceDir := dir
        parametersPath
        templatePath := dir.join s.layout.templateFile
        deployedSchemaPath := (dir.join s.layout.buildDir).join s.layout.schemaFile
        parameters
        document }

/-- The text of the schema to be deployed. -/
def deployedSchema? (d : Document) : Option String :=
  (d.property? Api.schemaId "Definition").bind Json.string?

/-- Writes the template and the schema to be deployed. -/
def writeOutputs (p : Plan) (fs : Filesystem) : Except FileError Unit × Filesystem :=
  match fs.writeAtomic p.templatePath p.document.template with
  | (.error e, fs) => (.error e, fs)
  | (.ok (), fs) =>
    match deployedSchema? p.document with
    | none => (.ok (), fs)
    | some text => fs.writeAtomic p.deployedSchemaPath text

def tablesOf (d : Document) : List String := d.idsOfType s.override.service.resourceType

def hold (sources : TableSources σ) (operator : Session.Operator) (d : Document) (w : World σ) :
    Session.Transcript σ :=
  if o.keepTables then ⟨[], .ok ⟨false, []⟩, operator.answers.length, w⟩
  else Session.run s.override sources (tablesOf s d) operator w

structure Run (σ : Type) where
  events : List Session.Event
  /-- How many answers were not used. -/
  left : Nat
  /-- Nothing, where there is nothing to compile. -/
  result : Except ProjectError (Option Report)
  world : World σ

/-- A run that ends before the session. -/
def early (operator : Session.Operator) (result : Except ProjectError (Option Report))
    (w : World σ) : Run σ :=
  ⟨[], operator.answers.length, result, w⟩

/-- The run from a compiled document on. -/
def finish (sources : TableSources σ) (operator : Session.Operator) (p : Plan) (w : World σ) :
    Run σ :=
  match w.files.digest? p.templatePath with
  | .error e => early operator (.error (.file e)) w
  | .ok previous =>
    match writeOutputs p w.files with
    | (.error e, files) => early operator (.error (.file e)) { w with files }
    | (.ok (), files) =>
      let t := hold s o sources operator p.document { w with files }
      match t.outcome with
      | .error e => ⟨t.events, t.left, .error (.prompt e), t.world⟩
      | .ok overrides =>
        match t.world.files.saveParameters p.parametersPath p.parameters with
        | (.error e, files) => ⟨t.events, t.left, .error (.file e), { t.world with files }⟩
        | (.ok (), files) =>
          let digest := digestOfText p.document.template
          let report : Report := {
            resourceDir := p.resourceDir
            templatePath := p.templatePath
            digest
            templateChanged := previous != some digest
            resources := p.document.size
            tables := tablesOf s p.document
            overrides }
          ⟨t.events, t.left, .ok (some report), { t.world with files }⟩

def run (sources : TableSources σ) (operator : Session.Operator) (w : World σ) : Run σ :=
  match locate s o sources w with
  | (.error e, w) => early operator (.error e) w
  | (.ok none, w) => early operator (.ok none) w
  | (.ok (some dir), w) =>
    match plan s o w.files dir with
    | .error e => early operator (.error e) w
    | .ok p => finish s o sources operator p w

/-- The sources of a project on files. -/
def sourcesOf (inventory : Inventory) : TableSources Unit :=
  .ofFiles (o.projectDir.join s.layout.metaFile) inventory
    (if s.override.storagePlugin then some s.override.storageCategory else none)

/-- A run on the files of a project alone. -/
def runOnFiles (inventory : Inventory) (operator : Session.Operator) (fs : Filesystem) :
    Run Unit :=
  run s o (sourcesOf s o inventory) operator ⟨fs, ()⟩

end Compilation

end SchemaStack
