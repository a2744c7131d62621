import SchemaStack.Proofs.Project.Outputs
import SchemaStack.Proofs.Project.Persistence
/-!
# Compiling twice

After a complete run without a session every output is in its place and its sibling is free. A
second run finds the same directory, the same schema and the same parameters, so it has the same
plan, and what it writes is there already. This takes outputs that do not get in each other's way:
where the sibling of one is a directory on the way to another, the second run fails.
-/

namespace SchemaStack

open Filesystem (ChangedWithin Settled Separate Alike writeAll)
open Json (Integral)

variable {σ : Type}

/-- The metadata is that of the file at a path. -/
def TableSources.Reads (sources : TableSources σ) (q : Path) : Prop :=
  ∀ fs memory, sources.loadMeta fs memory = (fs.loadMeta q, memory)

lemma TableSources.reads_ofFiles (p : Path) (inventory : Inventory) (category : Option String) :
    (ofFiles p inventory category).Reads p := fun _ _ => rfl

/-- The report of a run that finds the template as it writes it. -/
def Report.unchanged (report : Report) : Report := { report with templateChanged := false }

namespace Compilation

variable {s : Settings} {o : CompileOptions} {sources : TableSources σ}
  {operator : Session.Operator} {w w' : World σ} {r : Run σ} {p : Plan} {q dir : Path}
  {ls : List Filesystem.Location}

/-- The outputs, the schema and the metadata are in different places, and so are their siblings. No
sibling of an output is on the way to an output. -/
structure Tidy (s : Settings) (dir q : Path) (fs : Filesystem) : Prop where
  distinct : ((outputPaths s dir ++ [schemaPath s dir, q]).flatMap fs.footprint).Nodup
  aside : ∀ path ∈ outputPaths s dir, ∀ path' ∈ outputPaths s dir,
    fs.locationOf path.temporary ∉ fs.way path'

namespace Tidy

variable {fs : Filesystem}

lemma separate (tidy : Tidy s dir q fs) : Separate fs (outputPaths s dir) where
  distinct := by
    have h := tidy.distinct
    rw [List.flatMap_append, List.nodup_append] at h
    exact h.1
  aside := tidy.aside

/-- Neither the schema nor the metadata is where an output is written. -/
lemma unwritten (tidy : Tidy s dir q fs) {path : Path} (h : path ∈ [schemaPath s dir, q]) :
    fs.locationOf path ∉ (outputPaths s dir).flatMap fs.footprint := by
  have hdistinct := tidy.distinct
  rw [List.flatMap_append, List.nodup_append] at hdistinct
  intro hmem
  exact hdistinct.2.2 _ hmem _ (List.mem_flatMap.mpr ⟨path, h, List.mem_cons_self⟩) rfl

end Tidy

/-! ## The same plan -/

lemma locate_of_reads (hnone : o.resourceDir = none) (reads : sources.Reads q) :
    locate s o sources w =
      match w.files.loadMeta q with
      | .error e => (.error (.source e), w)
      | .ok m => (.ok ((m.resourcesOf s.layout.category apiService).head?.map fun name =>
          ((o.projectDir.join s.layout.backendDir).join s.layout.category).join name), w) := by
  rw [locate, hnone]
  dsimp only
  rw [World.ask, reads]
  cases w.files.loadMeta q <;> rfl

lemma world_locate (reads : o.resourceDir = none → sources.Reads q) :
    (locate s o sources w).2 = w := by
  cases hresource : o.resourceDir with
  | some dir => rw [locate, hresource]
  | none =>
    rw [locate_of_reads hresource (reads hresource)]
    cases w.files.loadMeta q <;> rfl

lemma loadMeta_of_changed {fs fs' : Filesystem} {m : ProjectMeta} (h : fs.loadMeta q = .ok m)
    (hm : m ≠ .empty) (changed : ChangedWithin ls fs fs') (kept : fs.locationOf q ∉ ls) :
    fs'.loadMeta q = .ok m := by
  rw [Filesystem.loadMeta] at h ⊢
  split at h
  · cases h
    exact absurd rfl hm
  · cases h
  · next text hread =>
    rw [changed.readText hread kept]
    exact h

/-- A run that finds its directory finds it again if the metadata has not been written. -/
lemma locate_again (hdir : (locate s o sources w).1 = .ok (some dir))
    (reads : o.resourceDir = none → sources.Reads q) (changed : ChangedWithin ls w.files w'.files)
    (kept : w.files.locationOf q ∉ ls) : locate s o sources w' = (.ok (some dir), w') := by
  cases hresource : o.resourceDir with
  | some dir' =>
    rw [locate, hresource] at hdir ⊢
    cases hdir
    rfl
  | none =>
    rw [locate_of_reads hresource (reads hresource)] at hdir ⊢
    cases hmeta : w.files.loadMeta q with
    | error e =>
      rw [hmeta] at hdir
      cases hdir
    | ok m =>
      rw [hmeta] at hdir
      have hm : m ≠ .empty := by
        rintro rfl
        cases hdir
      rw [loadMeta_of_changed hmeta hm changed kept]
      exact Prod.ext hdir rfl

/-- The schema and the parameters decide about the plan. -/
lemma plan_again {fs fs' : Filesystem} (hplan : plan s o fs dir = .ok p)
    (changed : ChangedWithin ls fs fs') (kept : fs.locationOf (schemaPath s dir) ∉ ls)
    (same : o.parameters = none → fs'.loadParameters (parametersPath s dir) =
      fs.loadParameters (parametersPath s dir)) : plan s o fs' dir = .ok p := by
  have hparameters : o.parameters.getD (fs'.loadParameters (parametersPath s dir)) =
      o.parameters.getD (fs.loadParameters (parametersPath s dir)) := by
    cases hgiven : o.parameters with
    | none => rw [Option.getD_none, Option.getD_none, same hgiven]
    | some parameters => rw [Option.getD_some, Option.getD_some]
  rw [parametersPath] at hparameters
  unfold plan at hplan ⊢
  dsimp only at hplan ⊢
  rw [hparameters]
  split at hplan
  · cases hplan
  · next text hread =>
    rw [changed.readText hread kept]
    exact hplan

lemma parameters_of_plan {fs : Filesystem} (h : plan s o fs dir = .ok p) :
    p.parameters = o.parameters.getD (fs.loadParameters (parametersPath s dir)) := by
  unfold plan at h
  dsimp only at h
  split at h
  · cases h
  · split at h
    · cases h
    · obtain rfl := Except.ok.inj h
      rfl

/-! ## The same outputs -/

lemma plain_of_keepTables (keep : o.keepTables = true) : o.plain = o := by
  rw [CompileOptions.plain, ← keep]

/-- A complete run without a session has written its outputs and done nothing else. -/
lemma Ending.written (ending : Ending s o sources operator p w r) (keep : o.keepTables = true)
    {out : Option Report} (h : r.result = .ok out) :
    ∃ previous files, out = some (reportOf s p previous ⟨false, []⟩) ∧
      writeAll p.writes w.files = (.ok (), files) ∧ r.world = { w with files } := by
  obtain ⟨previous, files, files', t, _, _, outputs, session, outcome, saved, rfl, rfl⟩ :=
    ending.exists_complete h
  rw [hold, if_pos keep] at session
  subst session
  cases outcome
  refine ⟨previous, files', rfl, ?_, rfl⟩
  rw [writeOutputs_eq] at outputs
  exact Filesystem.writeAll_append_eq_ok_iff.mpr
    ⟨files, outputs, saveParameters_eq_ok_iff.mp saved⟩

/-- Where the outputs of a plan are in their places, following it again changes nothing. -/
lemma finish_again (s : Settings) (sources : TableSources σ) (operator : Session.Operator)
    (w : World σ) (keep : o.keepTables = true)
    (settled : ∀ e ∈ p.writes, Settled e.1 e.2 w.files) :
    ∃ files, finish s o sources operator p w = ⟨[], operator.answers.length,
        .ok (some (reportOf s p (some (digestOfText p.document.template)) ⟨false, []⟩)),
        { w with files }⟩ ∧ Alike w.files files := by
  obtain ⟨files, hwrites, alike⟩ := Filesystem.writeAll_again settled
  obtain ⟨files₁, outputs, saved⟩ := Filesystem.writeAll_append_eq_ok_iff.mp hwrites
  rw [← writeOutputs_eq] at outputs
  have digest : w.files.digest? p.templatePath =
      .ok (some (digestOfText p.document.template)) := by
    rw [Filesystem.digest?, (settled (p.templatePath, p.document.template)
      (List.mem_append_left _ List.mem_cons_self)).readBytes]
    rfl
  refine ⟨files, ?_, alike⟩
  rw [← plain_of_keepTables keep]
  exact finish_plain digest outputs (saveParameters_eq_ok_iff.mpr saved)

lemma reportOf_again (p : Plan) (previous : Option String) (overrides : Session.Outcome) :
    reportOf s p (some (digestOfText p.document.template)) overrides =
      (reportOf s p previous overrides).unchanged := by
  simp [reportOf, Report.unchanged]

lemma Ending.again {out : Option Report} (ending : Ending s o sources operator p w r)
    (hplan : plan s o w.files dir = .ok p) (keep : o.keepTables = true)
    (tidy : Tidy s dir q w.files)
    (whole : o.parameters = none →
      Integral (.object (w.files.loadParameters (parametersPath s dir))))
    (h : r.result = .ok out) (operator' : Session.Operator) :
    plan s o r.world.files dir = .ok p ∧
      ChangedWithin ((outputPaths s dir).flatMap w.files.footprint) w.files r.world.files ∧
      (finish s o sources operator' p r.world).result = .ok (out.map Report.unchanged) ∧
      Alike r.world.files (finish s o sources operator' p r.world).world.files := by
  obtain ⟨previous, files, rfl, hwrites, hworld⟩ := ending.written keep h
  have follows := follows_of_plan hplan
  have settled := Filesystem.settled_writeAll (tidy.separate.sublist follows.writes) hwrites
  have hchanged := Filesystem.changed_writeAll p.writes w.files
  rw [hwrites] at hchanged
  have hwithin : ChangedWithin ((outputPaths s dir).flatMap w.files.footprint) w.files files :=
    hchanged.mono (follows.writes.flatMap _).subset
  obtain ⟨files', hfinish, alike⟩ :=
    finish_again s sources operator' { w with files } keep settled
  rw [hworld]
  refine ⟨?_, hwithin, ?_, ?_⟩
  -- parameters that were loaded are loaded as they were saved, which takes whole numbers
  · refine plan_again hplan hwithin (tidy.unwritten List.mem_cons_self) fun hnone => ?_
    have hsaved := (settled (p.parametersPath, (Json.object p.parameters).pretty)
      (List.mem_append_right _ List.mem_cons_self)).readText
    rw [follows.parameters, parameters_of_plan hplan, hnone, Option.getD_none] at hsaved
    exact Filesystem.loadParameters_of_readText hsaved
      (Filesystem.storable_loadParameters (whole hnone))
  · rw [hfinish, reportOf_again p previous]
    rfl
  · rw [hfinish]
    exact alike

lemma Course.again {out : Option Report} (course : Course s o sources operator w r)
    (keep : o.keepTables = true) (reads : o.resourceDir = none → sources.Reads q)
    (tidy : ∀ dir, (locate s o sources w).1 = .ok (some dir) → Tidy s dir q w.files)
    (whole : ∀ dir, (locate s o sources w).1 = .ok (some dir) → o.parameters = none →
      Integral (.object (w.files.loadParameters (parametersPath s dir))))
    (h : r.result = .ok out) (operator' : Session.Operator) :
    (run s o sources operator' r.world).result = .ok (out.map Report.unchanged) ∧
      Alike r.world.files (run s o sources operator' r.world).world.files := by
  have hworld := world_locate (s := s) (w := w) reads
  cases course with
  | unasked e w' located => cases h
  | unplanned dir w' e located planned => cases h
  | idle w' located =>
    obtain rfl := Except.ok.inj h
    rw [located] at hworld
    subst hworld
    rw [early, run, located]
    exact ⟨rfl, rfl, fun _ => rfl⟩
  | planned dir w' p r located planned ending =>
    rw [located] at hworld
    subst hworld
    have hdir : (locate s o sources w').1 = .ok (some dir) := by rw [located]
    obtain ⟨hplan, hchanged, hresult, alike⟩ :=
      ending.again planned keep (tidy dir hdir) (whole dir hdir) h operator'
    have kept := (tidy dir hdir).unwritten (List.mem_cons_of_mem _ List.mem_cons_self)
    rw [run, locate_again hdir reads hchanged kept]
    simp only [hplan]
    exact ⟨hresult, alike⟩

/-- A second run after a complete one without a session is complete as well. It reports the same
and that the template has not changed, and it leaves every file and directory as it was. -/
theorem run_again (s : Settings) (o : CompileOptions) (sources : TableSources σ)
    (operator operator' : Session.Operator) (w : World σ) (keep : o.keepTables = true)
    (reads : o.resourceDir = none → sources.Reads q)
    (tidy : ∀ dir, (locate s o sources w).1 = .ok (some dir) → Tidy s dir q w.files)
    (whole : ∀ dir, (locate s o sources w).1 = .ok (some dir) → o.parameters = none →
      Integral (.object (w.files.loadParameters (parametersPath s dir))))
    {out : Option Report} (h : (run s o sources operator w).result = .ok out) :
    (run s o sources operator' (run s o sources operator w).world).result =
        .ok (out.map Report.unchanged) ∧
      ∀ l, (run s o sources operator' (run s o sources operator w).world).world.files.get? l =
        (run s o sources operator w).world.files.get? l := by
  obtain ⟨hresult, alike⟩ :=
    (course_run s o sources operator w).again keep reads tidy whole h operator'
  exact ⟨hresult, alike.nodes⟩

/-! ## Two projects -/

/-- Parameters that are loaded might as well be given. -/
lemma run_given (hdir : o.resourceDir = some dir) :
    run s o sources operator w = run s { o with parameters := some (o.parameters.getD
      (w.files.loadParameters (parametersPath s dir))) } sources operator w := by
  rw [run, run, locate, locate, hdir]
  rfl

def blogParameters : Entries Json :=
  [("AuthCognitoUserPoolId", .string "eu-west-1_\"pool\""),
   ("Limits", .array [.number (.whole 25), .number (.whole (-1))])]

lemma storable_blogParameters : Json.Storable JsonText.maxDepth (.object blogParameters) := by
  have limits : Json.Storable 126 (.array [.number (.whole 25), .number (.whole (-1))]) := by
    refine .array ?_
    simp only [List.forall_mem_cons]
    exact ⟨.number _ ⟨by decide, by decide⟩, .number _ ⟨by decide, by decide⟩,
      List.forall_mem_nil _⟩
  refine .object (by decide) ?_
  simp only [blogParameters, List.forall_mem_cons]
  exact ⟨.string _ _, limits, List.forall_mem_nil _⟩

/-- A project that needs its parameters. -/
def blogFiles : Filesystem where
  nodes := [(["blog"], .directory),
    (["blog", "schema.graphql"],
      .file (textBytes "type Post @model @auth(rules: [\x7ballow: owner\x7d]) \x7b id: ID! \x7d")),
    (["blog", "parameters.json"], .file (textBytes (Json.object blogParameters).pretty))]
  current := []

def blogOptions : CompileOptions := ⟨some ⟨"blog"⟩, ⟨"."⟩, none, true⟩

def blogRun (w : World Unit) : Run Unit :=
  run default blogOptions (sourcesOf default blogOptions ⟨[], []⟩) .absent w

lemma loadParameters_blogFiles :
    blogFiles.loadParameters (parametersPath default ⟨"blog"⟩) = blogParameters :=
  Filesystem.loadParameters_of_readText (Filesystem.readText_of_readBytes (by decide +kernel))
    storable_blogParameters

lemma complete_blogRun :
    (blogRun ⟨blogFiles, ()⟩).result.toOption.any Option.isSome = true := by
  have hdir : blogOptions.resourceDir = some ⟨"blog"⟩ := rfl
  rw [blogRun, run_given hdir]
  dsimp only
  rw [loadParameters_blogFiles]
  decide +kernel

theorem run_again_blog :
    (blogRun ⟨blogFiles, ()⟩).result.toOption.any Option.isSome = true ∧
      (blogRun (blogRun ⟨blogFiles, ()⟩).world).result =
        (blogRun ⟨blogFiles, ()⟩).result.map (Option.map Report.unchanged) ∧
      ∀ l, (blogRun (blogRun ⟨blogFiles, ()⟩).world).world.files.get? l =
        (blogRun ⟨blogFiles, ()⟩).world.files.get? l := by
  have reads := TableSources.reads_ofFiles (blogOptions.projectDir.join
    (default : Settings).layout.metaFile) ⟨[], []⟩ (some "storage")
  have tidy : Tidy default ⟨"blog"⟩ (blogOptions.projectDir.join
      (default : Settings).layout.metaFile) blogFiles :=
    ⟨by decide +kernel, by decide +kernel⟩
  obtain ⟨out, hresult, hout⟩ := exists_of_any complete_blogRun
  have hagain := run_again default blogOptions (sourcesOf default blogOptions ⟨[], []⟩) .absent
    .absent ⟨blogFiles, ()⟩ rfl (fun _ => reads)
    (fun dir hdir => by
      obtain rfl := Option.some.inj (Except.ok.inj hdir)
      exact tidy)
    (fun dir hdir _ => by
      obtain rfl := Option.some.inj (Except.ok.inj hdir)
      rw [loadParameters_blogFiles]
      exact storable_blogParameters.integral) hresult
  have hfold (w : World Unit) : run default blogOptions (sourcesOf default blogOptions ⟨[], []⟩)
      .absent w = blogRun w := rfl
  simp only [hfold] at hagain
  refine ⟨complete_blogRun, ?_, hagain.2⟩
  rw [hresult]
  exact hagain.1

/-- Parameters in a directory that is called like the sibling of the template. -/
def besideTemplate : Settings where
  layout.parametersFile := "cloudformation-template.json.tmp/parameters.json"

/-- All files of the project and all their siblings are in different places, and there are no
numbers at all. The first run is complete, and the second one cannot write the template. -/
theorem sibling_taken :
    let r := runOnFiles besideTemplate postOptions.plain ⟨[], []⟩ .absent (postFiles [])
    let r' := runOnFiles besideTemplate postOptions.plain ⟨[], []⟩ .absent r.world.files
    Settings.parse? "layout:\n  parameters_file: cloudformation-template.json.tmp/parameters.json\n" =
        some besideTemplate ∧
      ((projectPaths besideTemplate postOptions.plain ⟨"api"⟩).flatMap
        (postFiles []).footprint).Nodup ∧
      r.result.toOption.any Option.isSome = true ∧
      r'.result =
        .error (.file ⟨⟨"api/cloudformation-template.json.tmp"⟩, .isDirectory⟩) := by
  refine ⟨?parsed, ?distinct, ?first, ?second⟩
  case parsed => decide +kernel
  case distinct => decide +kernel
  case first => decide +kernel
  case second => decide +kernel

end Compilation

end SchemaStack
