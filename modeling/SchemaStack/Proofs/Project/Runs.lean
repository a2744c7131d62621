import SchemaStack.Project.Compilation
import SchemaStack.Proofs.Project.Confinement
/-!
# The course of a run

How runs end, each with what has gone before. Up to the plan nothing is written; then come the
template and the schema to be deployed, what the session sets up, and the parameters.
-/

namespace SchemaStack

open Filesystem (ChangedWithin)

namespace Compilation

variable {σ : Type} (s : Settings) (o : CompileOptions) (sources : TableSources σ)
  (operator : Session.Operator)

/-! ## Paths -/

def parametersPath (dir : Path) : Path := dir.join s.layout.parametersFile

def schemaPath (dir : Path) : Path := dir.join s.layout.schemaFile

def templatePath (dir : Path) : Path := dir.join s.layout.templateFile

def deployedSchemaPath (dir : Path) : Path := (dir.join s.layout.buildDir).join s.layout.schemaFile

section Planning

variable {s o} {fs : Filesystem} {dir : Path} {p : Plan}

/-- The paths of a plan are those of the layout. -/
structure Plan.Follows (p : Plan) (s : Settings) (dir : Path) : Prop where
  resourceDir : p.resourceDir = dir
  parameters : p.parametersPath = Compilation.parametersPath s dir
  template : p.templatePath = Compilation.templatePath s dir
  deployedSchema : p.deployedSchemaPath = Compilation.deployedSchemaPath s dir

lemma follows_of_plan (h : plan s o fs dir = .ok p) : p.Follows s dir := by
  unfold plan at h
  dsimp only at h
  split at h
  · cases h
  · split at h
    · cases h
    · obtain rfl := Except.ok.inj h
      exact ⟨rfl, rfl, rfl, rfl⟩

lemma plan_of_unreadable {f : FileFault} (h : fs.readText (schemaPath s dir) = .error f) :
    plan s o fs dir = .error (.file ⟨schemaPath s dir, f⟩) := by
  rw [schemaPath] at h
  unfold plan
  simp only [h]
  rfl

/-- A plan has what is compiled of the schema with the parameters that are given or loaded. -/
lemma plan_of_readable {text : String} (h : fs.readText (schemaPath s dir) = .ok text) :
    plan s o fs dir =
      match compileText (s.build.resolve
          (o.parameters.getD (fs.loadParameters (parametersPath s dir))) (nameAfter dir)) text with
      | .error e => .error (.build e)
      | .ok document => .ok {
          resourceDir := dir
          parametersPath := parametersPath s dir
          templatePath := templatePath s dir
          deployedSchemaPath := deployedSchemaPath s dir
          parameters := o.parameters.getD (fs.loadParameters (parametersPath s dir))
          document } := by
  rw [schemaPath] at h
  unfold plan
  simp only [h]
  rfl

end Planning

/-- Looking for the directory changes no files. -/
lemma files_locate (w : World σ) : (locate s o sources w).2.files = w.files := by
  rw [locate]
  split
  · rfl
  · have hask := w.files_ask sources.loadMeta
    split
    · rename_i e w' h
      rwa [h] at hask
    · rename_i m w' h
      rwa [h] at hask

/-! ## Courses -/

/-- What is reported about a run that comes to its end. -/
def reportOf (p : Plan) (previous : Option String) (overrides : Session.Outcome) : Report where
  resourceDir := p.resourceDir
  templatePath := p.templatePath
  digest := digestOfText p.document.template
  templateChanged := previous != some (digestOfText p.document.template)
  resources := p.document.size
  tables := tablesOf s p.document
  overrides := overrides

/-- How a run with a plan ends. -/
inductive Ending (p : Plan) (w : World σ) : Run σ → Prop
  | undigested (e : FileError) (digest : w.files.digest? p.templatePath = .error e) :
      Ending p w (early operator (.error (.file e)) w)
  | unwritten (previous : Option String) (e : FileError) (files : Filesystem)
      (digest : w.files.digest? p.templatePath = .ok previous)
      (outputs : writeOutputs p w.files = (.error e, files)) :
      Ending p w (early operator (.error (.file e)) { w with files })
  | unanswered (previous : Option String) (files : Filesystem) (t : Session.Transcript σ)
      (e : Session.PromptError)
      (digest : w.files.digest? p.templatePath = .ok previous)
      (outputs : writeOutputs p w.files = (.ok (), files))
      (session : hold s o sources operator p.document { w with files } = t)
      (outcome : t.outcome = .error e) :
      Ending p w ⟨t.events, t.left, .error (.prompt e), t.world⟩
  | unsaved (previous : Option String) (files files' : Filesystem) (t : Session.Transcript σ)
      (overrides : Session.Outcome) (e : FileError)
      (digest : w.files.digest? p.templatePath = .ok previous)
      (outputs : writeOutputs p w.files = (.ok (), files))
      (session : hold s o sources operator p.document { w with files } = t)
      (outcome : t.outcome = .ok overrides)
      (saved : t.world.files.saveParameters p.parametersPath p.parameters = (.error e, files')) :
      Ending p w ⟨t.events, t.left, .error (.file e), { t.world with files := files' }⟩
  | complete (previous : Option String) (files files' : Filesystem) (t : Session.Transcript σ)
      (overrides : Session.Outcome)
      (digest : w.files.digest? p.templatePath = .ok previous)
      (outputs : writeOutputs p w.files = (.ok (), files))
      (session : hold s o sources operator p.document { w with files } = t)
      (outcome : t.outcome = .ok overrides)
      (saved : t.world.files.saveParameters p.parametersPath p.parameters = (.ok (), files')) :
      Ending p w ⟨t.events, t.left, .ok (some (reportOf s p previous overrides)),
        { t.world with files := files' }⟩

/-- How a run ends. -/
inductive Course (w : World σ) : Run σ → Prop
  | unasked (e : ProjectError) (w' : World σ) (located : locate s o sources w = (.error e, w')) :
      Course w (early operator (.error e) w')
  | idle (w' : World σ) (located : locate s o sources w = (.ok none, w')) :
      Course w (early operator (.ok none) w')
  | unplanned (dir : Path) (w' : World σ) (e : ProjectError)
      (located : locate s o sources w = (.ok (some dir), w'))
      (planned : plan s o w'.files dir = .error e) :
      Course w (early operator (.error e) w')
  | planned (dir : Path) (w' : World σ) (p : Plan) (r : Run σ)
      (located : locate s o sources w = (.ok (some dir), w'))
      (planned : plan s o w'.files dir = .ok p)
      (ending : Ending s o sources operator p w' r) : Course w r

lemma ending_finish (p : Plan) (w : World σ) :
    Ending s o sources operator p w (finish s o sources operator p w) := by
  rw [finish]
  split
  · rename_i e hdigest
    exact .undigested e hdigest
  · rename_i previous hdigest
    split
    · rename_i e files houtputs
      exact .unwritten previous e files hdigest houtputs
    · rename_i files houtputs
      dsimp only
      split
      · rename_i e houtcome
        exact .unanswered previous files _ e hdigest houtputs rfl houtcome
      · rename_i overrides houtcome
        split
        · rename_i e files' hsaved
          exact .unsaved previous files files' _ overrides e hdigest houtputs rfl houtcome hsaved
        · rename_i files' hsaved
          exact .complete previous files files' _ overrides hdigest houtputs rfl houtcome hsaved

variable {s o sources operator} in
/-- What has gone before where a run comes to its end. -/
lemma Ending.exists_complete {p : Plan} {w : World σ} {r : Run σ}
    (ending : Ending s o sources operator p w r) {out : Option Report} (h : r.result = .ok out) :
    ∃ previous files files' t overrides,
      w.files.digest? p.templatePath = .ok previous ∧
      writeOutputs p w.files = (.ok (), files) ∧
      hold s o sources operator p.document { w with files } = t ∧
      t.outcome = .ok overrides ∧
      t.world.files.saveParameters p.parametersPath p.parameters = (.ok (), files') ∧
      out = some (reportOf s p previous overrides) ∧
      r = ⟨t.events, t.left, .ok (some (reportOf s p previous overrides)),
        { t.world with files := files' }⟩ := by
  cases ending with
  | undigested e digest => cases h
  | unwritten previous e files digest outputs => cases h
  | unanswered previous files t e digest outputs session outcome => cases h
  | unsaved previous files files' t overrides e digest outputs session outcome saved => cases h
  | complete previous files files' t overrides digest outputs session outcome saved =>
    exact ⟨previous, files, files', t, overrides, digest, outputs, session, outcome, saved,
      (Except.ok.inj h).symm, rfl⟩

/-- Every run takes one of these courses. -/
theorem course_run (w : World σ) :
    Course s o sources operator w (run s o sources operator w) := by
  rw [run]
  split
  · rename_i e w' hlocated
    exact .unasked e w' hlocated
  · rename_i w' hlocated
    exact .idle w' hlocated
  · rename_i dir w' hlocated
    split
    · rename_i e hplanned
      exact .unplanned dir w' e hlocated hplanned
    · rename_i p hplanned
      exact .planned dir w' p _ hlocated hplanned (ending_finish s o sources operator p w')

/-! ## What the parts of a run change -/

section Changes

variable {sources} {q : Path}

lemma changed_writeOutputs (p : Plan) (fs : Filesystem) :
    ChangedWithin ([p.templatePath, p.deployedSchemaPath].flatMap fs.footprint) fs
      (writeOutputs p fs).2 := by
  have htemplate := (fs.changed_writeAtomic p.templatePath p.document.template).mono
    (List.subset_append_left _ (fs.footprint p.deployedSchemaPath))
  rw [writeOutputs]
  simp only [List.flatMap_cons, List.flatMap_nil, List.append_nil]
  split
  · rename_i e fs' hfailed
    rwa [hfailed] at htemplate
  · rename_i fs' hdone
    rw [hdone] at htemplate
    split
    · exact htemplate
    · rename_i text _
      have hdeployed := fs'.changed_writeAtomic p.deployedSchemaPath text
      rw [htemplate.footprint_eq] at hdeployed
      exact htemplate.trans (hdeployed.mono (List.subset_append_right _ _))

/-- A session changes files only where its sources are confined to. -/
lemma changed_hold (confined : sources.Confined q) (d : Document) (w : World σ) :
    ChangedWithin (w.files.footprint q) w.files (hold s o sources operator d w).world.files := by
  rw [hold]
  split
  · exact .refl _ _
  · exact Session.changed_run s.override confined operator w

end Changes

/-! ## A small project -/

deriving instance DecidableEq for Report

/-- A project with one schema. -/
def postFiles (more : List (Filesystem.Location × FileNode)) : Filesystem where
  nodes := more ++ [(["api"], .directory),
    (["api", "schema.graphql"], .file (textBytes "type Post @model \x7b id: ID! \x7d")),
    (["api", "parameters.json"], .file (textBytes "draft"))]
  current := []

def postOptions : CompileOptions := ⟨some ⟨"api"⟩, ⟨"."⟩, some [], false⟩

end Compilation

end SchemaStack
