import SchemaStack.Proofs.Filesystem.Replacement
import SchemaStack.Proofs.Project.Failures
import SchemaStack.Proofs.Project.Sessions
/-!
# What a run leaves behind

A run changes files only where its outputs are written and where its sources are confined to, and
after a complete run an output is what was written there last. So the schema that is compiled stays
as it is if it is in none of these places. Nothing keeps the settings from putting an output there.
-/

namespace SchemaStack

open Filesystem (ChangedWithin writeAll)

namespace Compilation

variable {σ : Type} {s : Settings} {o : CompileOptions} {sources : TableSources σ}
  {operator : Session.Operator} {w : World σ} {r : Run σ} {p : Plan} {q dir : Path}

/-! ## Outputs as texts at paths -/

/-- What is written before the session. -/
def Plan.outputs (p : Plan) : List (Path × String) :=
  (p.templatePath, p.document.template) ::
    ((deployedSchema? p.document).map fun text => (p.deployedSchemaPath, text)).toList

/-- Everything that a complete run writes. -/
def Plan.writes (p : Plan) : List (Path × String) :=
  p.outputs ++ [(p.parametersPath, (Json.object p.parameters).pretty)]

lemma writeOutputs_eq (p : Plan) (fs : Filesystem) : writeOutputs p fs = writeAll p.outputs fs := by
  rw [writeOutputs, Plan.outputs, writeAll]
  cases fs.writeAtomic p.templatePath p.document.template with
  | mk result fs₁ =>
    cases result with
    | error e => rfl
    | ok _ =>
      cases deployedSchema? p.document with
      | none => rfl
      | some text =>
        dsimp only [Option.map_some, Option.toList_some]
        rw [writeAll]
        cases fs₁.writeAtomic p.deployedSchemaPath text with
        | mk result fs₂ => cases result <;> rfl

lemma saveParameters_eq_ok_iff {fs fs' : Filesystem} {parameters : Entries Json} :
    fs.saveParameters q parameters = (.ok (), fs') ↔
      writeAll [(q, (Json.object parameters).pretty)] fs = (.ok (), fs') := by
  rw [Filesystem.writeAll_cons_eq_ok_iff, Filesystem.saveParameters]
  constructor
  · intro h
    exact ⟨fs', h, rfl⟩
  · rintro ⟨fs₁, h, hnil⟩
    obtain rfl := (Prod.mk.inj hnil).2
    exact h

lemma Plan.Follows.writes (follows : p.Follows s dir) :
    (p.writes.map Prod.fst).Sublist (outputPaths s dir) := by
  rw [Plan.writes, Plan.outputs, outputPaths, follows.template, follows.deployedSchema,
    follows.parameters]
  refine List.Sublist.cons_cons _ ?_
  cases deployedSchema? p.document with
  | none => exact List.sublist_cons_self _ _
  | some text => exact List.Sublist.refl _

/-! ## What a run changes -/

/-- Where a run may change files, if its sources are confined to a path. -/
def touched (s : Settings) (dir q : Path) (fs : Filesystem) : List Filesystem.Location :=
  (outputPaths s dir ++ [q]).flatMap fs.footprint

lemma footprint_subset_touched {path : Path} (h : path ∈ outputPaths s dir ++ [q])
    (fs : Filesystem) : fs.footprint path ⊆ touched s dir q fs :=
  fun _ hl => List.mem_flatMap.mpr ⟨path, h, hl⟩

lemma Ending.changed (ending : Ending s o sources operator p w r) (follows : p.Follows s dir)
    (confined : sources.Confined q) :
    ChangedWithin (touched s dir q w.files) w.files r.world.files := by
  have houtputs := changed_writeOutputs p w.files
  have before : [p.templatePath, p.deployedSchemaPath].flatMap w.files.footprint ⊆
      touched s dir q w.files := by
    rw [follows.template, follows.deployedSchema]
    intro l hl
    obtain ⟨path, hpath, hfootprint⟩ := List.mem_flatMap.mp hl
    have houtput : path ∈ outputPaths s dir := List.mem_append_left [parametersPath s dir] hpath
    exact footprint_subset_touched (List.mem_append_left [q] houtput) w.files hfootprint
  have hsession (files : Filesystem) (houtput : writeOutputs p w.files = (.ok (), files)) :
      ChangedWithin (touched s dir q w.files) w.files
        (hold s o sources operator p.document { w with files }).world.files := by
    rw [houtput] at houtputs
    have hheld := changed_hold s o operator confined p.document { w with files }
    rw [houtputs.footprint_eq] at hheld
    exact (houtputs.mono before).trans
      (hheld.mono (footprint_subset_touched (List.mem_append_right _ List.mem_cons_self) w.files))
  have hsaved (t : World σ) (h : ChangedWithin (touched s dir q w.files) w.files t.files) :
      ChangedWithin (touched s dir q w.files) w.files
        (t.files.saveParameters p.parametersPath p.parameters).2 := by
    have hwritten := t.files.changed_writeAtomic p.parametersPath
      (Json.object p.parameters).pretty
    rw [h.footprint_eq, follows.parameters] at hwritten
    rw [follows.parameters]
    exact h.trans (hwritten.mono (footprint_subset_touched (by simp [outputPaths]) w.files))
  cases ending with
  | undigested e digest => exact .refl _ _
  | unwritten previous e files digest outputs =>
    rw [outputs] at houtputs
    exact houtputs.mono before
  | unanswered previous files t e digest outputs session outcome =>
    rw [← session]
    exact hsession files outputs
  | unsaved previous files files' t overrides e digest outputs session outcome saved =>
    have h := hsaved t.world (session ▸ hsession files outputs)
    rwa [saved] at h
  | complete previous files files' t overrides digest outputs session outcome saved =>
    have h := hsaved t.world (session ▸ hsession files outputs)
    rwa [saved] at h

lemma Course.changed (course : Course s o sources operator w r)
    (hdir : (locate s o sources w).1 = .ok (some dir)) (confined : sources.Confined q) :
    ChangedWithin (touched s dir q w.files) w.files r.world.files := by
  have hlocate := files_locate s o sources w
  rcases course.located hdir with ⟨e, hplan, hearly⟩ | ⟨p, hplan, ending⟩
  · rw [hearly, early, hlocate]
    exact .refl _ _
  · have hchanged := ending.changed (follows_of_plan hplan) confined
    rwa [hlocate] at hchanged

/-- After a complete run there is at a location what was written there last, unless the session may
have changed it. -/
lemma Ending.fileAt_of_complete (ending : Ending s o sources operator p w r)
    (confined : sources.Confined q) {out : Option Report} (h : r.result = .ok out)
    {l : Filesystem.Location} (apart : l ∉ w.files.footprint q) :
    r.world.files.fileAt l = w.files.contentAfter l p.writes := by
  obtain ⟨_, files, files', t, _, _, outputs, session, _, saved, rfl, rfl⟩ :=
    ending.exists_complete h
  have houtputs := changed_writeOutputs p w.files
  rw [outputs] at houtputs
  rw [writeOutputs_eq] at outputs
  have hsession := changed_hold s o operator confined p.document { w with files }
  rw [session, houtputs.footprint_eq] at hsession
  have hkept : t.world.files.fileAt l = w.files.contentAfter l p.outputs := by
    rw [hsession.files l apart, Filesystem.fileAt_writeAll outputs]
  rw [Filesystem.fileAt_writeAtomic saved, hkept, hsession.locationOf_eq,
    hsession.locationOf_eq, houtputs.locationOf_eq, houtputs.locationOf_eq, Plan.writes,
    Filesystem.contentAfter, Filesystem.contentAfter, List.foldl_append]
  rfl

/-- A run leaves the schema that it compiles as it is, whatever its outcome, unless an output or
the metadata is written there or has its sibling there. A complete run leaves everywhere else what
it has written there last. -/
theorem run_keeps_source (s : Settings) (o : CompileOptions) (sources : TableSources σ)
    (operator : Session.Operator) (w : World σ) (confined : sources.Confined q)
    (hdir : (locate s o sources w).1 = .ok (some dir)) :
    (w.files.locationOf (schemaPath s dir) ∉ touched s dir q w.files →
      ∀ bytes, w.files.readBytes (schemaPath s dir) = .ok bytes →
        (run s o sources operator w).world.files.readBytes (schemaPath s dir) = .ok bytes) ∧
    ∀ p report, plan s o w.files dir = .ok p →
      (run s o sources operator w).result = .ok (some report) → ∀ l ∉ w.files.footprint q,
        (run s o sources operator w).world.files.fileAt l = w.files.contentAfter l p.writes := by
  have course := course_run s o sources operator w
  have hlocate := files_locate s o sources w
  refine ⟨fun apart bytes hbytes => ?_, fun p report hp hresult l hl => ?_⟩
  · exact (course.changed hdir confined).readBytes hbytes apart
  · rcases course.located hdir with ⟨e, hplan, hearly⟩ | ⟨p', hplan, ending⟩
    · cases hplan.symm.trans hp
    · obtain rfl := Except.ok.inj (hplan.symm.trans hp)
      rw [← hlocate] at hl ⊢
      exact ending.fileAt_of_complete confined hresult hl

/-- The default layout keeps the schema apart, also when a table is set up in the metadata. -/
theorem run_keeps_source_added :
    let r := runOnFiles default postOptions ⟨[], []⟩ (.scripted addingAnswers) (postFiles [])
    r.world.files.readBytes (schemaPath default ⟨"api"⟩) =
        .ok (textBytes "type Post @model \x7b id: ID! \x7d") ∧
      ∃ p, plan default postOptions (postFiles []) ⟨"api"⟩ = .ok p ∧
        r.world.files.fileAt ["api", "parameters.json"] =
          (postFiles []).contentAfter ["api", "parameters.json"] p.writes := by
  intro r
  have hcomplete : r.result.toOption.any Option.isSome = true := by decide +kernel
  obtain ⟨out, hresult, hout⟩ := exists_of_any hcomplete
  obtain ⟨report, rfl⟩ := Option.isSome_iff_exists.mp hout
  have hplanned : (plan default postOptions (postFiles []) ⟨"api"⟩).toOption.any (fun _ => true) =
      true := by
    decide +kernel
  obtain ⟨p, hplan, _⟩ := exists_of_any hplanned
  have confined := TableSources.confined_ofFiles
    (postOptions.projectDir.join (default : Settings).layout.metaFile) ⟨[], []⟩ (some "storage")
  have hlocated : (locate default postOptions (sourcesOf default postOptions ⟨[], []⟩)
      ⟨postFiles [], ()⟩).1 = .ok (some ⟨"api"⟩) := rfl
  obtain ⟨hsource, houtputs⟩ := run_keeps_source default postOptions
    (sourcesOf default postOptions ⟨[], []⟩) (.scripted addingAnswers) ⟨postFiles [], ()⟩ confined
    hlocated
  refine ⟨?_, p, hplan, ?_⟩
  · exact hsource (by decide +kernel) _ (by decide +kernel)
  · exact houtputs p report hplan hresult _ (by decide +kernel)

/-- The resource directory itself as build directory. -/
def inPlace : Settings where
  layout.buildDir := "."

/-- Then the schema to be deployed takes the place of the one that was compiled. -/
theorem source_replaced :
    let source := textBytes "type Post @model \x7b id: ID! \x7d"
    let r := runOnFiles inPlace postOptions.plain ⟨[], []⟩ .absent (postFiles [])
    Settings.parse? "layout:\n  build_dir: .\n" = some inPlace ∧
      r.result.toOption.isSome = true ∧
      (postFiles []).readBytes (schemaPath inPlace ⟨"api"⟩) = .ok source ∧
      r.world.files.readBytes (schemaPath inPlace ⟨"api"⟩) ≠ .ok source := by
  refine ⟨?parsed, ?complete, ?before, ?after⟩
  case parsed => decide +kernel
  case complete => decide +kernel
  case before => decide +kernel
  case after => decide +kernel

end Compilation

end SchemaStack
