import SchemaStack.Proofs.Project.Runs
/-!
# What a failed run leaves behind

Everything that can go wrong with the project, the schema or the build goes wrong before anything
is written. A session that is not answered to its end comes after the outputs, but before the
parameters, so that only new storage can have changed these.
-/

namespace SchemaStack

open Filesystem (ChangedWithin)

namespace Compilation

variable {σ : Type} {s : Settings} {o : CompileOptions} {sources : TableSources σ}
  {operator : Session.Operator} {w : World σ} {r : Run σ} {q : Path}

/-- Results of runs in which there was nothing to compile, or it could not be compiled, or the
project could not be asked. -/
def Uncompiled : Except ProjectError (Option Report) → Prop
  | .ok none => True
  | .error (.build _) => True
  | .error (.source _) => True
  | _ => False

/-- Where a run may change files before it saves the parameters, if its sources are confined to a
path. -/
def reach (s : Settings) (dir q : Path) (fs : Filesystem) : List Filesystem.Location :=
  [templatePath s dir, deployedSchemaPath s dir, q].flatMap fs.footprint

lemma Course.files_of_uncompiled (course : Course s o sources operator w r)
    (h : Uncompiled r.result) : r.world.files = w.files := by
  have hlocate := files_locate s o sources w
  cases course with
  | unasked e w' located => rwa [located] at hlocate
  | idle w' located => rwa [located] at hlocate
  | unplanned dir w' e located planned => rwa [located] at hlocate
  | planned dir w' p r located planned ending => cases ending <;> exact h.elim

/-- A run that has found its directory ends for want of a plan or goes on from one. -/
lemma Course.located (course : Course s o sources operator w r) {dir : Path}
    (hdir : (locate s o sources w).1 = .ok (some dir)) :
    (∃ e, plan s o w.files dir = .error e ∧
        r = early operator (.error e) (locate s o sources w).2) ∨
      ∃ p, plan s o w.files dir = .ok p ∧
        Ending s o sources operator p (locate s o sources w).2 r := by
  rw [← files_locate s o sources w]
  cases course with
  | unasked e w' located =>
    rw [located] at hdir
    cases hdir
  | idle w' located =>
    rw [located] at hdir
    cases hdir
  | unplanned dir' w' e located planned =>
    rw [located] at hdir ⊢
    obtain rfl := Option.some.inj (Except.ok.inj hdir)
    exact Or.inl ⟨e, planned, rfl⟩
  | planned dir' w' p r located planned ending =>
    rw [located] at hdir ⊢
    obtain rfl := Option.some.inj (Except.ok.inj hdir)
    exact Or.inr ⟨p, planned, ending⟩

lemma Ending.eq_of_undigested {p : Plan} (ending : Ending s o sources operator p w r)
    {e : FileError} (h : w.files.digest? p.templatePath = .error e) :
    r = early operator (.error (.file e)) w := by
  cases ending with
  | undigested e' digest =>
    obtain rfl := Except.error.inj (h.symm.trans digest)
    rfl
  | unwritten previous e' files digest => cases h.symm.trans digest
  | unanswered previous files t e' digest => cases h.symm.trans digest
  | unsaved previous files files' t overrides e' digest => cases h.symm.trans digest
  | complete previous files files' t overrides digest => cases h.symm.trans digest

/-- A run whose session is not answered to its end has not come to the parameters. -/
lemma Ending.changed_of_unanswered {dir : Path} {p : Plan} (follows : p.Follows s dir)
    (confined : sources.Confined q) (ending : Ending s o sources operator p w r)
    {e : Session.PromptError} (h : r.result = .error (.prompt e)) :
    ChangedWithin (reach s dir q w.files) w.files r.world.files := by
  cases ending with
  | undigested e' digest => cases h
  | unwritten previous e' files digest outputs => cases h
  | unsaved previous files files' t overrides e' digest outputs session outcome saved => cases h
  | complete previous files files' t overrides digest outputs session outcome saved => cases h
  | unanswered previous files t e' digest outputs session outcome =>
    have houtputs := changed_writeOutputs p w.files
    rw [outputs, follows.template, follows.deployedSchema] at houtputs
    have hsession := changed_hold s o operator confined p.document { w with files }
    rw [session, houtputs.footprint_eq] at hsession
    have hreach : reach s dir q w.files =
        [templatePath s dir, deployedSchemaPath s dir].flatMap w.files.footprint ++
          w.files.footprint q := by
      simp [reach]
    rw [hreach]
    exact (houtputs.mono (List.subset_append_left _ _)).trans
      (hsession.mono (List.subset_append_right _ _))

/-- A run that could not compile anything, not read the schema or not make out what the template
was leaves all files and directories as they are. One whose session was not answered to its end
leaves the parameters, unless they are where an output, the metadata or a sibling of these is
written. -/
theorem run_failed (s : Settings) (o : CompileOptions) (sources : TableSources σ)
    (operator : Session.Operator) (w : World σ) :
    (Uncompiled (run s o sources operator w).result →
      (run s o sources operator w).world.files = w.files) ∧
    ∀ dir, (locate s o sources w).1 = .ok (some dir) →
      (∀ f, w.files.readText (schemaPath s dir) = .error f →
        (run s o sources operator w).result = .error (.file ⟨schemaPath s dir, f⟩) ∧
          (run s o sources operator w).world.files = w.files) ∧
      (∀ p e, plan s o w.files dir = .ok p → w.files.digest? (templatePath s dir) = .error e →
        (run s o sources operator w).result = .error (.file e) ∧
          (run s o sources operator w).world.files = w.files) ∧
      ∀ q e, sources.Confined q → (run s o sources operator w).result = .error (.prompt e) →
        w.files.locationOf (parametersPath s dir) ∉ reach s dir q w.files →
        (run s o sources operator w).world.files.fileAt
            (w.files.locationOf (parametersPath s dir)) =
          w.files.fileAt (w.files.locationOf (parametersPath s dir)) := by
  have course := course_run s o sources operator w
  have hlocate := files_locate s o sources w
  refine ⟨course.files_of_uncompiled, fun dir hdir => ?_⟩
  rcases course.located hdir with ⟨e', hplan, hearly⟩ | ⟨p, hplan, ending⟩
  · rw [hearly]
    refine ⟨fun f hf => ?_, fun p e hp => ?_, fun q e _ _ _ => ?_⟩
    · rw [plan_of_unreadable hf] at hplan
      obtain rfl := Except.error.inj hplan
      exact ⟨rfl, hlocate⟩
    · cases hplan.symm.trans hp
    · rw [early, hlocate]
  · refine ⟨fun f hf => ?_, fun p' e hp he => ?_, fun q e confined hresult hapart => ?_⟩
    · cases hplan.symm.trans (plan_of_unreadable hf)
    · obtain rfl := Except.ok.inj (hplan.symm.trans hp)
      rw [← (follows_of_plan hplan).template, ← hlocate] at he
      rw [ending.eq_of_undigested he]
      exact ⟨rfl, hlocate⟩
    · have hchanged := ending.changed_of_unanswered (follows_of_plan hplan) confined hresult
      rw [hlocate] at hchanged
      exact hchanged.files _ hapart

/-- The operator sets up a table and then does not say whether there are more. -/
def cutShort : Session.Operator := .scripted [.confirm true, .select 0, .select 1]

theorem run_failed_unanswered :
    let r := runOnFiles default postOptions ⟨[], []⟩ cutShort (postFiles [])
    r.result = .error (.prompt (.unanswered "Do you want to configure more tables?")) ∧
      (r.world.files.fileAt ["amplify", "backend", "amplify-meta.json"]).isSome = true ∧
      r.world.files.fileAt ["api", "parameters.json"] = some (textBytes "draft") := by
  intro r
  have hresult : r.result =
      .error (.prompt (.unanswered "Do you want to configure more tables?")) := by
    decide +kernel
  have hadded : (r.world.files.fileAt ["amplify", "backend", "amplify-meta.json"]).isSome =
      true := by
    decide +kernel
  have confined := TableSources.confined_ofFiles
    (postOptions.projectDir.join (default : Settings).layout.metaFile) ⟨[], []⟩ (some "storage")
  obtain ⟨_, hrest⟩ := run_failed default postOptions (sourcesOf default postOptions ⟨[], []⟩)
    cutShort ⟨postFiles [], ()⟩
  obtain ⟨_, _, hprompt⟩ := hrest ⟨"api"⟩ rfl
  refine ⟨hresult, hadded, ?_⟩
  exact hprompt _ _ confined hresult (by decide +kernel)

/-! ## Sessions that the parameters do not survive -/

/-- What else than the parameters is written in a run, with the temporary siblings. -/
def othersWritten (s : Settings) (o : CompileOptions) (dir : Path) : List Path :=
  [templatePath s dir, deployedSchemaPath s dir, o.projectDir.join s.layout.metaFile].flatMap
    fun p => [p, p.temporary]

/-- Parameters where the metadata have their temporary sibling, under another path. -/
def besideMeta : Settings where
  layout.parametersFile := "amplify-meta.json.tmp"
  layout.metaFile := "api/build/../amplify-meta.json"

def besideFiles : Filesystem :=
  postFiles [(["api", "amplify-meta.json.tmp"], .file (textBytes "draft"))]

def besideRun : Run Unit := runOnFiles besideMeta postOptions ⟨[], []⟩ cutShort besideFiles

/-- Sources that take the parameters away. -/
def forgetting : TableSources Unit where
  loadMeta _ _ := (.ok .empty, ())
  regions _ _ := (.ok [], ())
  tables _ _ _ := (.ok [], ())
  provision := some fun _ _ w =>
    (.ok "dynamodb1", { w with files := w.files.erase ["api", "parameters.json"] })

def forgettingRun : Run Unit := run default postOptions forgetting cutShort ⟨postFiles [], ()⟩

/-- A session that is not answered to its end may have taken the parameters away, if another path
that is written leads to them, or else if the sources are not confined. -/
theorem parameters_lost_of_unanswered :
    (Settings.parse? ("layout:\n  parameters_file: amplify-meta.json.tmp\n" ++
        "  project_meta_file: api/build/../amplify-meta.json\n") = some besideMeta ∧
      (∀ p ∈ othersWritten besideMeta postOptions ⟨"api"⟩,
        p.steps ≠ (parametersPath besideMeta ⟨"api"⟩).steps) ∧
      besideRun.result = .error (.prompt (.unanswered "Do you want to configure more tables?")) ∧
      besideFiles.fileAt ["api", "amplify-meta.json.tmp"] = some (textBytes "draft") ∧
      besideRun.world.files.fileAt ["api", "amplify-meta.json.tmp"] = none) ∧
    ((∀ p ∈ othersWritten default postOptions ⟨"api"⟩, (postFiles []).locationOf p ≠
        (postFiles []).locationOf (parametersPath default ⟨"api"⟩)) ∧
      forgettingRun.result =
        .error (.prompt (.unanswered "Do you want to configure more tables?")) ∧
      (postFiles []).fileAt ["api", "parameters.json"] = some (textBytes "draft") ∧
      forgettingRun.world.files.fileAt ["api", "parameters.json"] = none) := by
  refine ⟨⟨?parsed, ?others, ?beside⟩, ?apart, ?forgetting⟩
  case parsed => decide +kernel
  case others => decide +kernel
  case beside => decide +kernel
  case apart => decide +kernel
  case forgetting => decide +kernel

end Compilation

end SchemaStack
