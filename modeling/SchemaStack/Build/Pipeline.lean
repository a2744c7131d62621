import SchemaStack.Build.Context
import SchemaStack.Schema.Reader
/-!
# Pipelines

An ordered list of stages whose contracts hold: names are distinct, what a stage requires an
earlier one provides, and a terminal stage comes last. A pipeline compiles a schema by running its
stages one after the other over one document.
-/

namespace SchemaStack

/-- A directive that a stage gives a meaning, and where it may stand. -/
structure DirectiveSpec where
  name : String
  location : Location
deriving DecidableEq, Repr, Inhabited

/-- A stage sees the build so far and returns the artifacts to go on with and its contribution.
It cannot touch the document itself. -/
structure Stage where
  name : String
  requires : List Capability := []
  provides : List Capability := []
  directives : List DirectiveSpec := []
  terminal : Bool := false
  contribute : Context → Except BuildError (Artifacts × Contribution)

namespace Pipeline

/-- Checks the stages after those that are named and provide what is given. -/
def checkFrom (names : List String) (provided : List Capability) :
    List Stage → Except PipelineFault Unit
  | [] => .ok ()
  | s :: ss =>
    if names.contains s.name then .error (.repeatedStage s.name)
    else
      match s.requires.find? fun c => !provided.contains c with
      | some c => .error (.missingCapability s.name c)
      | none =>
        if s.terminal && !ss.isEmpty then .error (.notLast s.name)
        else checkFrom (s.name :: names) (s.provides ++ provided) ss

def check (stages : List Stage) : Except PipelineFault Unit := checkFrom [] [] stages

end Pipeline

structure Pipeline where
  stages : List Stage
  accepted : Pipeline.check stages = .ok ()

namespace Pipeline

def ofStages (stages : List Stage) : Except BuildError Pipeline :=
  match h : check stages with
  | .error f => .error (.pipeline f)
  | .ok () => .ok ⟨stages, h⟩

def names (p : Pipeline) : List String := p.stages.map Stage.name

def directives (p : Pipeline) : List DirectiveSpec := p.stages.flatMap Stage.directives

def checkDirective (handled : List DirectiveSpec) (location : Location) (d : Directive) :
    Except SchemaError Unit :=
  let specs := handled.filter fun s => s.name == d.name
  if specs.isEmpty then .error ((Fault.directive (.unsupported d.name)).onLine d.line)
  else if specs.any fun s => s.location == location then .ok ()
  else .error ((Fault.directive (.misplaced d.name location)).onLine d.line)

/-- The directives of an object type and of its fields, in the order they are checked. -/
def directivesOf (o : ObjectType) : List (Location × Directive) :=
  o.directives.map (Location.object, ·) ++
    o.fields.flatMap fun f => f.directives.map (Location.field, ·)

def checkAll (handled : List DirectiveSpec) : List (Location × Directive) → Except SchemaError Unit
  | [] => .ok ()
  | (location, d) :: ds =>
    match checkDirective handled location d with
    | .error e => .error e
    | .ok () => checkAll handled ds

/-- Every directive must have a meaning where it stands. -/
def checkDirectives (p : Pipeline) (s : Schema) : Except SchemaError Unit :=
  checkAll p.directives (s.objects.flatMap directivesOf)

/-- One stage: it contributes, and its contribution is merged. -/
def step (c : Context) (s : Stage) : Except BuildError Context := do
  let (artifacts, k) ← s.contribute c
  { c with artifacts := artifacts }.merge s.name k

def runFrom (c : Context) : List Stage → Except BuildError Context
  | [] => .ok c
  | s :: ss =>
    match step c s with
    | .error e => .error e
    | .ok c => runFrom c ss

/-- The context that each stage finds which starts at all. -/
def startsFrom (c : Context) : List Stage → List (Stage × Context)
  | [] => []
  | s :: ss =>
    (s, c) ::
      match step c s with
      | .error _ => []
      | .ok c => startsFrom c ss

/-- Compiles a schema that has been read. -/
def compileSchema (p : Pipeline) (s : Schema) : Except BuildError Document :=
  match p.checkDirectives s with
  | .error e => .error (.schema e)
  | .ok () => (runFrom (.start s) p.stages).map Context.document

def compile (p : Pipeline) (text : String) : Except BuildError Document :=
  match Schema.parse text with
  | .error e => .error (.schema e)
  | .ok s => p.compileSchema s

/-- The stages that started in the course of compiling a text, with what they found. -/
def starts (p : Pipeline) (text : String) : List (Stage × Context) :=
  match Schema.parse text with
  | .error _ => []
  | .ok s =>
    match p.checkDirectives s with
    | .error _ => []
    | .ok () => startsFrom (.start s) p.stages

end Pipeline

end SchemaStack
