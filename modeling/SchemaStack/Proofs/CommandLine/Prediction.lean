import SchemaStack.CommandLine.Execution
import SchemaStack.Proofs.Directive.Configuration
import SchemaStack.Proofs.Document.Classification
import SchemaStack.Proofs.Project.Failures
import SchemaStack.Proofs.Project.Persistence
/-!
# Checking before compiling

A schema is checked in order to know what compiling it will come to. The check has its user pool
from the command line and names the API after the directory that the file is really in, and the run
has its user pool from the parameters and the name from the path that it is given. What is accepted,
and what the resources are, does not depend on the name.
-/

namespace SchemaStack

open Compilation (Plan compileText parametersPath plan schemaPath)

namespace Command

/-- The stages that a check goes through, with or without relations and authorization. -/
def checkedStages (connections authorized : Bool) : List String :=
  ["api", "model"] ++ (if connections then ["connection"] else []) ++
    (if authorized then ["auth"] else [])

/-- What a check of a schema says about the plan of a run: whether there is one, and if so, how many
resources it has, in all and of each type that occurs in its template, and otherwise why there is
none. -/
structure Predicts (schema : Path) (stages : List String) (check : Execution)
    (planned : Except ProjectError Plan) : Prop where
  succeeds_iff : check.failure = none ↔ ∃ p, planned = .ok p
  lines : ∀ p, planned = .ok p → check.lines =
    ("OK: " ++ schema.text ++ " (" ++ toString p.document.size ++ " resources, stages: " ++
        ", ".intercalate stages ++ ")") ::
      p.document.summary.map fun (t, n) =>
        "  " ++ t.tag ++ String.ofList (List.replicate (28 - t.tag.length) ' ') ++ " " ++ toString n
  counts : ∀ p, planned = .ok p → p.document.size = p.document.ids.length ∧
    ∀ t n, (t, n) ∈ p.document.summary ↔ n = (p.document.toJson.idsOfTag t.tag).length ∧ n ≠ 0
  fails_iff : ∀ e, check.failure = some e ↔ planned = .error e

lemma predicts_failed (schema : Path) (stages : List String) (e : ProjectError)
    (fs : Filesystem) : Predicts schema stages (.failed e fs) (.error e) where
  succeeds_iff := by simp [Execution.failed]
  lines := by
    intro p h
    cases h
  counts := by
    intro p h
    cases h
  fails_iff := by simp [Execution.failed]

/-- A check looks at a document of its own, which has an outline in common with that of the run. -/
lemma predicts_succeeded (schema : Path) (stages : List String) {d : Document} {p : Plan}
    (h : d.outline = p.document.outline) (fs : Filesystem) :
    Predicts schema stages (.succeeded (validityLines schema d stages) fs) (.ok p) where
  succeeds_iff := by simp [Execution.succeeded]
  lines := by
    intro p' hp
    obtain rfl := Except.ok.inj hp
    rw [← Document.size_of_outline h, ← Document.summary_of_outline h]
    rfl
  counts := by
    intro p' hp
    constructor
    · rw [Document.size, Document.ids, Entries.keys, List.length_map]
    · intro t n
      rw [Document.mem_summary, (Document.mirrors_toJson _).known t]
  fails_iff := by simp [Execution.succeeded]

section Check

variable {fs : Filesystem} {s : Settings} {file dir schema : Path} {text pool : String}

lemma run_validate (settings : fs.loadSettings file = .ok s)
    (readable : fs.readText schema = .ok text) {p : Pipeline}
    (hp : Pipeline.standard (checkedConfig s fs (schema.parent?.getD ⟨"."⟩) (some pool)) = .ok p) :
    run fs (.validate schema (some pool) (some file)) =
      match p.compile text with
      | .error e => .failed (.build e) fs
      | .ok d => .succeeded (validityLines schema d p.names) fs := by
  cases hcompile : p.compile text <;>
    simp only [run, runValidate, settingsFor, settings, readable, hp, hcompile]

/-- The pool of the command line is the one of the only parameter. -/
lemma userPool_resolve (b : BuildSettings) (pool name name' : String) :
    ((b.resolve [] name).withUserPool pool).userPool =
      (b.resolve [(b.authParameter, .string pool)] name').userPool := by
  simp [BuildConfig.withUserPool, BuildSettings.resolve, Entries.get?_cons, Json.string?]

/-- The stages of a check depend on the settings and on whether it is given a user pool. -/
lemma names_of_checkedConfig {p : Pipeline}
    (hp : Pipeline.standard (checkedConfig s fs dir (some pool)) = .ok p) :
    p.names = checkedStages s.build.connections (!pool.isEmpty) := by
  have hpool : (checkedConfig s fs dir (some pool)).userPool.isSome = !pool.isEmpty := by
    simp only [checkedConfig, BuildConfig.withUserPool, BuildConfig.poolOfText]
    split <;> simp_all
  rw [Pipeline.names_of_standard hp, hpool]
  rfl

lemma loadParameters_of_single {file : Path} {k : String}
    (readable : fs.readText file = .ok text)
    (single : Json.parse? text = some (.object [(k, .string pool)])) :
    fs.loadParameters file = [(k, .string pool)] := by
  rw [Filesystem.loadParameters, readable, Except.toOption, Option.bind_some, single]
  rfl

lemma predicts_plan (settings : fs.loadSettings file = .ok s)
    (readable : fs.readText (schemaPath s dir) = .ok text) {o : CompileOptions}
    (given : o.parameters = none)
    (loaded : fs.loadParameters (parametersPath s dir) = [(s.build.authParameter, .string pool)]) :
    Predicts (schemaPath s dir) (checkedStages s.build.connections (!pool.isEmpty))
      (run fs (.validate (schemaPath s dir) (some pool) (some file))) (plan s o fs dir) := by
  have hplan := Compilation.plan_of_readable (o := o) readable
  rw [given, Option.getD_none, loaded] at hplan
  generalize hchecked : checkedConfig s fs ((schemaPath s dir).parent?.getD ⟨"."⟩) (some pool) =
    checked
  obtain ⟨p, hp⟩ := Pipeline.exists_standard checked
  have hcheck := run_validate settings readable (hchecked ▸ hp)
  rw [names_of_checkedConfig (hchecked ▸ hp)] at hcheck
  have hcompile : compileText checked text = p.compile text := by rw [compileText, hp]
  have agree : Agree (fun d d' => d.outline = d'.outline) (compileText checked text)
      (compileText (s.build.resolve [(s.build.authParameter, .string pool)]
        (Compilation.nameAfter dir)) text) := by
    refine Compilation.agree_compileText ?_ ?_ text
    · rw [← hchecked]
      rfl
    · rw [← hchecked]
      exact congrArg Option.isSome (userPool_resolve s.build pool _ _)
  rw [hcompile] at agree
  rcases agree.or with ⟨e, he, he'⟩ | ⟨d, d', hd, hd', houtline⟩
  · rw [he] at hcheck
    rw [he'] at hplan
    rw [hcheck, hplan]
    exact predicts_failed _ _ _ fs
  · rw [hd] at hcheck
    rw [hd'] at hplan
    rw [hcheck, hplan]
    exact predicts_succeeded _ _ houtline fs

end Check

/-! ## The run itself -/

section Compile

variable {fs : Filesystem} {s : Settings} {file dir projectDir : Path}

lemma run_compile_of_plan_error (settings : fs.loadSettings file = .ok s) {e : ProjectError}
    (h : plan s ⟨some dir, projectDir, none, true⟩ fs dir = .error e) :
    run fs (.compile (some dir) projectDir (some file) none true) = .failed e fs := by
  have hrun : Compilation.runOnFiles s ⟨some dir, projectDir, none, true⟩ .empty .absent fs =
      Compilation.early .absent (.error e) ⟨fs, ()⟩ := by
    rw [Compilation.runOnFiles, Compilation.run, Compilation.locate]
    simp only [h]
  simp only [run, runCompile, settingsFor, settings, inventoryAt, hrun]
  rfl

/-- A run that keeps the tables as they are has no session, and if it comes to its end, the command
says first how many resources there are. -/
lemma run_compile_of_plan (settings : fs.loadSettings file = .ok s) {p : Plan}
    (hplan : plan s ⟨some dir, projectDir, none, true⟩ fs dir = .ok p) {report : Report}
    (h : (Compilation.runOnFiles s ⟨some dir, projectDir, none, true⟩ .empty .absent fs).result =
      .ok (some report)) :
    report.resources = p.document.size ∧ ∃ rest,
      (run fs (.compile (some dir) projectDir (some file) none true)).lines =
        ("Compiled " ++ dir.text ++ " (" ++ toString p.document.size ++ " resources)") :: rest := by
  have course := Compilation.course_run s ⟨some dir, projectDir, none, true⟩
    (Compilation.sourcesOf s ⟨some dir, projectDir, none, true⟩ .empty) .absent ⟨fs, ()⟩
  rcases course.located rfl with ⟨e, he, _⟩ | ⟨p', hp', ending⟩
  · cases hplan.symm.trans he
  · obtain rfl := Except.ok.inj (hplan.symm.trans hp')
    obtain ⟨previous, _, _, t, overrides, _, _, session, _, _, hreport, hrun⟩ :=
      ending.exists_complete h
    obtain rfl := Option.some.inj hreport
    obtain rfl : _ = t := session
    refine ⟨rfl, (reportLines (Compilation.reportOf s p previous overrides)).tail, ?_⟩
    simp only [run, runCompile, settingsFor, settings, inventoryAt, Compilation.runOnFiles, hrun]
    rw [← (Compilation.follows_of_plan hplan).resourceDir]
    rfl

end Compile

/-- Checking a schema says beforehand whether the run that compiles it under the same settings, with
the pool as its only parameter, gets past the compilation: if not, both have failed in the same way,
and if so, the check prints how many resources are compiled, in all and of each type, and a run that
comes to its end reports and prints the same number. -/
theorem validate_predicts_compile (fs : Filesystem) (file dir projectDir : Path) (pool : String) :
    (∀ e, fs.loadSettings file = .error e → ∀ schema,
      run fs (.validate schema (some pool) (some file)) = .failed e fs ∧
        run fs (.compile (some dir) projectDir (some file) none true) = .failed e fs) ∧
    ∀ s text parameters, fs.loadSettings file = .ok s →
      fs.readText (schemaPath s dir) = .ok text →
      fs.readText (parametersPath s dir) = .ok parameters →
      Json.parse? parameters = some (.object [(s.build.authParameter, .string pool)]) →
      let o : CompileOptions := ⟨some dir, projectDir, none, true⟩
      Predicts (schemaPath s dir) (checkedStages s.build.connections (!pool.isEmpty))
          (run fs (.validate (schemaPath s dir) (some pool) (some file))) (plan s o fs dir) ∧
        (∀ e, plan s o fs dir = .error e →
          run fs (.compile (some dir) projectDir (some file) none true) = .failed e fs) ∧
        ∀ p report, plan s o fs dir = .ok p →
          (Compilation.runOnFiles s o .empty .absent fs).result = .ok (some report) →
            report.resources = p.document.size ∧ ∃ rest,
              (run fs (.compile (some dir) projectDir (some file) none true)).lines =
                ("Compiled " ++ dir.text ++ " (" ++ toString p.document.size ++ " resources)") ::
                  rest := by
  refine ⟨fun e he schema => ?_, fun s text parameters settings readable given single => ?_⟩
  · constructor
    · simp only [run, runValidate, settingsFor, he]
    · simp only [run, runCompile, settingsFor, he]
  · exact ⟨predicts_plan settings readable rfl (loadParameters_of_single given single),
      fun e => run_compile_of_plan_error settings,
      fun p report hplan => run_compile_of_plan settings hplan⟩

def poolSettings : Settings where
  layout.schemaFile := "api.graphql"
  build.authParameter := "Pool"

def poolSettingsText : String :=
  "layout:\n  schema_file: api.graphql\ntransform:\n  auth_parameter: Pool\n"

def poolText : String := "type Post @model @auth(rules: [\x7ballow: owner\x7d]) \x7b id: ID! \x7d"

/-- A project with settings of its own and the user pool among the parameters. -/
def poolFiles : Filesystem where
  nodes := [(["settings.yaml"], .file (textBytes poolSettingsText)), (["blog"], .directory),
    (["blog", "api.graphql"], .file (textBytes poolText)),
    (["blog", "parameters.json"],
      .file (textBytes (Json.object [("Pool", .string "eu_1")]).pretty))]
  current := []

def poolSummary : List (ResourceType × Nat) :=
  [(.api, 1), (.apiKey, 1), (.schema, 1), (.table, 1), (.role, 1), (.dataSource, 1), (.resolver, 5)]

theorem validate_predicts_compile_pool :
    let check := run poolFiles
      (.validate ⟨"blog/api.graphql"⟩ (some "eu_1") (some ⟨"settings.yaml"⟩))
    let o : CompileOptions := ⟨some ⟨"blog"⟩, ⟨"."⟩, none, true⟩
    poolFiles.loadSettings ⟨"settings.yaml"⟩ = .ok poolSettings ∧
      ∃ p, plan poolSettings o poolFiles ⟨"blog"⟩ = .ok p ∧ p.document.size = 11 ∧
        p.document.summary = poolSummary ∧ check.failure = none ∧ check.lines =
          ["OK: blog/api.graphql (11 resources, stages: api, model, connection, auth)",
            "  AWS::AppSync::GraphQLApi     1", "  AWS::AppSync::ApiKey         1",
            "  AWS::AppSync::GraphQLSchema  1", "  AWS::DynamoDB::Table         1",
            "  AWS::IAM::Role               1", "  AWS::AppSync::DataSource     1",
            "  AWS::AppSync::Resolver       5"] := by
  intro check o
  have settings : poolFiles.loadSettings ⟨"settings.yaml"⟩ = .ok poolSettings := by
    have hread : poolFiles.readText ⟨"settings.yaml"⟩ = .ok poolSettingsText :=
      Filesystem.readText_of_readBytes (by decide +kernel)
    have hparse : Settings.parse? poolSettingsText = some poolSettings := by decide +kernel
    rw [Filesystem.loadSettings, hread, Except.toOption, Option.bind_some, hparse]
  have readable : poolFiles.readText (schemaPath poolSettings ⟨"blog"⟩) = .ok poolText :=
    Filesystem.readText_of_readBytes (by decide +kernel)
  have given : poolFiles.readText (parametersPath poolSettings ⟨"blog"⟩) =
      .ok (Json.object [("Pool", .string "eu_1")]).pretty :=
    Filesystem.readText_of_readBytes (by decide +kernel)
  have single : Json.parse? (Json.object [("Pool", .string "eu_1")]).pretty =
      some (.object [("Pool", .string "eu_1")]) := by
    refine Json.parse?_pretty (.object (by decide) ?_)
    simp only [List.forall_mem_cons]
    exact ⟨.string _ _, List.forall_mem_nil _⟩
  have predicted := (validate_predicts_compile poolFiles ⟨"settings.yaml"⟩ ⟨"blog"⟩ ⟨"."⟩
    "eu_1").2 poolSettings _ _ settings readable given single
  have heval : (compileText (poolSettings.build.resolve [("Pool", .string "eu_1")] "blog")
      poolText).toOption.any (fun d => d.size = 11 ∧ d.summary = poolSummary) = true := by
    decide +kernel
  obtain ⟨d, hcompile, hd⟩ := exists_of_any heval
  obtain ⟨hsize, hsummary⟩ := of_decide_eq_true hd
  have hplan := Compilation.plan_of_readable (o := o) readable
  have loaded := loadParameters_of_single given single
  have hname : Compilation.nameAfter ⟨"blog"⟩ = "blog" := by decide +kernel
  rw [Option.getD_none, loaded, hname, hcompile] at hplan
  refine ⟨settings, _, hplan, hsize, hsummary, predicted.1.succeeds_iff.mpr ⟨_, hplan⟩, ?_⟩
  refine (predicted.1.lines _ hplan).trans ?_
  rw [hsize, hsummary]
  decide +kernel

end Command

end SchemaStack
