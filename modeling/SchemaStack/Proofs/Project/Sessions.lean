import SchemaStack.Proofs.Filesystem.Directories
import SchemaStack.Proofs.Project.Runs
/-!
# Runs with and without a session

The values that are written after a session do not depend on it, and it changes files only where
its sources are confined to. So a run with a session and one that keeps the tables as they are end
with the same outputs, as long as none of those files is on the way to the parameters.
-/

namespace SchemaStack

open Filesystem (ChangedWithin)

/-- The same options without a session. -/
def CompileOptions.plain (o : CompileOptions) : CompileOptions := { o with keepTables := true }

/-- A report on the same outputs, in which no table is replaced. -/
def Report.plain (report : Report) : Report := { report with overrides := ⟨false, []⟩ }

namespace Compilation

variable {σ : Type} {s : Settings} {o : CompileOptions} {sources : TableSources σ}
  {operator : Session.Operator} {w : World σ} {r : Run σ} {p : Plan} {q : Path}

/-- What a run writes for a resource directory. -/
def outputPaths (s : Settings) (dir : Path) : List Path :=
  [templatePath s dir, deployedSchemaPath s dir, parametersPath s dir]

/-- The outputs are not written where sources are confined to, and no file is there on the way to
the parameters. -/
structure Apart (s : Settings) (dir q : Path) (fs : Filesystem) : Prop where
  outputs : ∀ path ∈ outputPaths s dir, ∀ l ∈ fs.footprint path, l ∉ fs.footprint q
  way : ∀ l ∈ fs.way (parametersPath s dir), l ∈ fs.footprint q → fs.fileAt l = none

/-- Writing the template and the schema to be deployed leaves no file on that way. -/
lemma Apart.free_of_outputs {dir : Path} {fs fs' : Filesystem} (apart : Apart s dir q fs)
    (follows : p.Follows s dir) (outputs : writeOutputs p fs = (.ok (), fs')) :
    ∀ l ∈ fs'.way p.parametersPath, l ∈ fs.footprint q → fs'.fileAt l = none := by
  have houtputs := changed_writeOutputs p fs
  rw [outputs, follows.template, follows.deployedSchema] at houtputs
  intro l hway hl
  rw [houtputs.way_eq, follows.parameters] at hway
  have hkept : l ∉ [templatePath s dir, deployedSchemaPath s dir].flatMap fs.footprint := by
    intro hmem
    obtain ⟨path, hpath, hfootprint⟩ := List.mem_flatMap.mp hmem
    have houtput : path ∈ outputPaths s dir := List.mem_append_left [parametersPath s dir] hpath
    exact apart.outputs path houtput l hfootprint hl
  rw [houtputs.files l hkept]
  exact apart.way l hway hl

lemma finish_plain {previous : Option String} {files files' : Filesystem}
    (digest : w.files.digest? p.templatePath = .ok previous)
    (outputs : writeOutputs p w.files = (.ok (), files))
    (saved : files.saveParameters p.parametersPath p.parameters = (.ok (), files')) :
    finish s o.plain sources operator p w =
      ⟨[], operator.answers.length, .ok (some (reportOf s p previous ⟨false, []⟩)),
        { w with files := files' }⟩ := by
  rw [finish, digest]
  simp only [outputs, hold, CompileOptions.plain, if_true, saved]
  rfl

lemma Ending.plain {dir : Path} {out : Option Report}
    (ending : Ending s o sources operator p w r) (follows : p.Follows s dir)
    (confined : sources.Confined q) (apart : Apart s dir q w.files)
    (h : r.result = .ok out) (operator' : Session.Operator) :
    (finish s o.plain sources operator' p w).result = .ok (out.map Report.plain) ∧
      ChangedWithin (w.files.footprint q) (finish s o.plain sources operator' p w).world.files
        r.world.files := by
  obtain ⟨previous, files, files', t, _, digest, outputs, session, _, saved, rfl, rfl⟩ :=
    ending.exists_complete h
  have houtputs := changed_writeOutputs p w.files
  rw [outputs] at houtputs
  have hsession := changed_hold s o operator confined p.document { w with files }
  rw [session, houtputs.footprint_eq] at hsession
  have hfree := apart.free_of_outputs follows outputs
  obtain ⟨files'', hsaved, hchanged⟩ := Filesystem.exists_writeAtomic hsession hfree saved
  rw [finish_plain digest outputs hsaved]
  exact ⟨rfl, hchanged⟩

lemma Course.plain {out : Option Report} (course : Course s o sources operator w r)
    (confined : sources.Confined q)
    (apart : ∀ dir, (locate s o sources w).1 = .ok (some dir) → Apart s dir q w.files)
    (h : r.result = .ok out) (operator' : Session.Operator) :
    (run s o.plain sources operator' w).result = .ok (out.map Report.plain) ∧
      ChangedWithin (w.files.footprint q) (run s o.plain sources operator' w).world.files
        r.world.files := by
  have hfiles := files_locate s o sources w
  have hlocate : locate s o.plain sources w = locate s o sources w := rfl
  rw [run, hlocate]
  cases course with
  | unasked e w' located => cases h
  | unplanned dir w' e located planned => cases h
  | idle w' located =>
    obtain rfl := Except.ok.inj h
    rw [located]
    exact ⟨rfl, .refl _ _⟩
  | planned dir w' p r located planned ending =>
    have hplan : plan s o.plain w'.files dir = .ok p := planned
    have hapart := apart dir (by rw [located])
    rw [located] at hfiles
    rw [← hfiles] at hapart
    rw [located, ← hfiles]
    simp only [hplan]
    exact ending.plain (follows_of_plan planned) confined hapart h operator'

/-- What a session decides stays in the report. If a run with a session comes to its end, so does
the run without one on the same files, with the same outputs and the same report on them, and files
differ at most where the sources are confined to. -/
theorem run_plain (s : Settings) (o : CompileOptions) (operator operator' : Session.Operator)
    (w : World σ) (confined : sources.Confined q)
    (apart : ∀ dir, (locate s o sources w).1 = .ok (some dir) → Apart s dir q w.files)
    {out : Option Report} (h : (run s o sources operator w).result = .ok out) :
    (run s o.plain sources operator' w).result = .ok (out.map Report.plain) ∧
      (∀ dir, (locate s o sources w).1 = .ok (some dir) → ∀ path ∈ outputPaths s dir,
        (run s o sources operator w).world.files.fileAt (w.files.locationOf path) =
          (run s o.plain sources operator' w).world.files.fileAt (w.files.locationOf path)) ∧
      ∀ l ∉ w.files.footprint q, (run s o sources operator w).world.files.fileAt l =
        (run s o.plain sources operator' w).world.files.fileAt l := by
  obtain ⟨hresult, hchanged⟩ :=
    (course_run s o sources operator w).plain confined apart h operator'
  refine ⟨hresult, fun dir hdir path hpath => ?_, hchanged.files⟩
  have hlocation : w.files.locationOf path ∈ w.files.footprint path := List.mem_cons_self
  exact hchanged.files _ ((apart dir hdir).outputs path hpath _ hlocation)

/-- The operator replaces a table by one that is set up in the metadata file. -/
def addingAnswers : List Session.Answer := [.confirm true, .select 0, .select 1, .confirm false]

theorem run_plain_added :
    let r := runOnFiles default postOptions ⟨[], []⟩ (.scripted addingAnswers) (postFiles [])
    let r' := runOnFiles default postOptions.plain ⟨[], []⟩ .absent (postFiles [])
    r'.result = r.result.map (Option.map Report.plain) ∧ r.result.toOption.isSome = true ∧
      ∀ path ∈ outputPaths default ⟨"api"⟩,
        r.world.files.fileAt ((postFiles []).locationOf path) =
          r'.world.files.fileAt ((postFiles []).locationOf path) := by
  intro r r'
  have hcomplete : r.result.toOption.any (fun _ => true) = true := by decide +kernel
  obtain ⟨out, hresult, _⟩ := exists_of_any hcomplete
  have confined := TableSources.confined_ofFiles
    (postOptions.projectDir.join (default : Settings).layout.metaFile) ⟨[], []⟩ (some "storage")
  have apart : Apart default ⟨"api"⟩
      (postOptions.projectDir.join (default : Settings).layout.metaFile) (postFiles []) :=
    ⟨by decide +kernel, by decide +kernel⟩
  have hlocated : ∀ dir, (locate default postOptions (sourcesOf default postOptions ⟨[], []⟩)
      ⟨postFiles [], ()⟩).1 = .ok (some dir) → Apart default dir
        (postOptions.projectDir.join (default : Settings).layout.metaFile) (postFiles []) := by
    intro dir hdir
    obtain rfl := Option.some.inj (Except.ok.inj hdir)
    exact apart
  obtain ⟨hplain, houtputs, _⟩ := run_plain default postOptions (.scripted addingAnswers) .absent
    ⟨postFiles [], ()⟩ confined hlocated hresult
  refine ⟨?_, ?_, houtputs _ rfl⟩
  · rw [hresult]
    exact hplain
  · rw [hresult]
    rfl

/-! ## Files that a session shows in -/

/-- The files of a run, those that it reads and the metadata included. -/
def projectPaths (s : Settings) (o : CompileOptions) (dir : Path) : List Path :=
  outputPaths s dir ++ [schemaPath s dir, o.projectDir.join s.layout.metaFile]

/-- What was left of writing the metadata another time. -/
def leftover : List (Filesystem.Location × FileNode) :=
  [(["amplify"], .directory), (["amplify", "backend"], .directory),
    (["amplify", "backend", "amplify-meta.json.tmp"], .file [])]

/-- Parameters in what is a leftover file. -/
def throughLeftover : Settings where
  layout.parametersFile := "../amplify/backend/amplify-meta.json.tmp/parameters.json"

/-- Sources that take the template away. -/
def removing : TableSources Unit where
  loadMeta _ _ := (.ok .empty, ())
  regions _ _ := (.ok [], ())
  tables _ _ _ := (.ok [], ())
  provision := some fun _ _ w =>
    (.ok "dynamodb1", { w with files := w.files.erase ["api", "cloudformation-template.json"] })

def leftoverRun (s : Settings) (o : CompileOptions) : Run Unit :=
  runOnFiles s o ⟨[], []⟩ (.scripted addingAnswers) (postFiles leftover)

def removingRun (o : CompileOptions) : Run Unit :=
  run default o removing (.scripted addingAnswers) ⟨postFiles [], ()⟩

/-- A session takes away what was left of the metadata, which may have been in the way to the
parameters, and sources that are not confined can change any output. -/
theorem sessions_show :
    (∀ s ∈ [default, throughLeftover],
      ((projectPaths s postOptions ⟨"api"⟩).flatMap (postFiles leftover).footprint).Nodup) ∧
    ((leftoverRun default postOptions).result.toOption.isSome = true ∧
      (leftoverRun default postOptions.plain).result.toOption.isSome = true ∧
      (leftoverRun default postOptions).world.files.fileAt
        ["amplify", "backend", "amplify-meta.json.tmp"] = none ∧
      (leftoverRun default postOptions.plain).world.files.fileAt
        ["amplify", "backend", "amplify-meta.json.tmp"] = some []) ∧
    ((leftoverRun throughLeftover postOptions).result.toOption.isSome = true ∧
      (leftoverRun throughLeftover postOptions.plain).result.toOption.isSome = false) ∧
    ((removingRun postOptions).result.toOption.isSome = true ∧
      (removingRun postOptions.plain).result.toOption.isSome = true ∧
      (removingRun postOptions).world.files.fileAt ["api", "cloudformation-template.json"] =
        none ∧
      ((removingRun postOptions.plain).world.files.fileAt
        ["api", "cloudformation-template.json"]).isSome = true) := by
  refine ⟨?distinct, ?leftover, ?way, ?removing⟩
  case distinct => decide +kernel
  case leftover => decide +kernel
  case way => decide +kernel
  case removing => decide +kernel

end Compilation

end SchemaStack
