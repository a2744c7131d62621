import SchemaStack.Directive.Standard
import SchemaStack.Proofs.Directive.Guards
/-!
# Runs of the standard stages

The standard pipeline has the API, the model types and the relations, where they are wanted, and
then authorization, where there is a user pool. The stages before authorization can fail on a
schema or on the ID of a relation, and otherwise leave one and the same build.
-/

namespace SchemaStack.Pipeline

lemma runFrom_append (c : Context) (ss ts : List Stage) :
    runFrom c (ss ++ ts) = (runFrom c ss).bind fun c' => runFrom c' ts := by
  induction ss generalizing c with
  | nil => rfl
  | cons st ss ih =>
    rw [List.cons_append, runFrom, runFrom]
    cases step c st with
    | error e => rfl
    | ok c' => exact ih c'

lemma runFrom_singleton (c : Context) (st : Stage) : runFrom c [st] = step c st := by
  rw [runFrom]
  cases step c st <;> rfl

lemma compile_of_parse {p : Pipeline} {text : String} {s : Schema}
    (h : Schema.parse text = .ok s) : p.compile text = p.compileSchema s := by
  rw [compile, h]

/-- The stages before authorization. -/
def foundation (name : String) (config : BuildConfig) (connections : Bool) : List Stage :=
  [Api.stage name, Model.stage config] ++ if connections then [Connection.stage] else []

/-- The schema has what the stages before authorization ask for, and these are its relations. -/
@[mk_iff founded_iff]
structure Founded (name : String) (config : BuildConfig) (connections : Bool) (s : Schema)
    (rs : List Relation) : Prop where
  models : Model.checkAll s.modelTypes = .ok ()
  relations : if connections then Connection.relations (Model.registered s) = .ok rs else rs = []
  accepts : (Model.built name config s).Accepts (Connection.contribution name config s rs)

variable {name : String} {config : BuildConfig} {connections : Bool} {s : Schema}

lemma Founded.resolved (distinct : (s.objects.map ObjectType.name).Nodup) {rs : List Relation}
    (founded : Founded name config connections s rs) : Connection.Resolved s rs := by
  have hrs := founded.relations
  cases connections with
  | true => exact Connection.resolved_of_relations distinct hrs
  | false =>
    obtain rfl : rs = [] := hrs
    exact Connection.resolved_nil s

lemma runFrom_foundation (name : String) (config : BuildConfig) (connections : Bool)
    (distinct : (s.objects.map ObjectType.name).Nodup) :
    runFrom (.start s) (foundation name config connections) =
      match Model.checkAll s.modelTypes with
      | .error e => .error (.schema e)
      | .ok () =>
        if connections then step (Model.built name config s) Connection.stage
        else .ok (Model.built name config s) := by
  rw [foundation, List.cons_append, runFrom, Api.step_stage name distinct]
  change runFrom (Api.built name s) (Model.stage config :: _) = _
  rw [runFrom, Model.step_stage name config distinct]
  cases Model.checkAll s.modelTypes with
  | error e => rfl
  | ok u =>
    cases connections with
    | true => exact runFrom_singleton _ _
    | false => rfl

theorem runFrom_foundation_eq_ok_iff (distinct : (s.objects.map ObjectType.name).Nodup)
    {c : Context} :
    runFrom (.start s) (foundation name config connections) = .ok c ↔
      ∃ rs, Founded name config connections s rs ∧ c = Connection.built name config s rs := by
  rw [runFrom_foundation name config connections distinct]
  constructor
  · intro h
    cases hm : Model.checkAll s.modelTypes with
    | error e =>
      rw [hm] at h
      cases h
    | ok u =>
      rw [hm] at h
      cases connections with
      | true =>
        obtain ⟨rs, hrs, accepts, rfl⟩ := Connection.step_stage_eq_ok_iff.mp h
        exact ⟨rs, ⟨hm, hrs, accepts⟩, rfl⟩
      -- leaving relations out is having none
      | false =>
        refine ⟨[], ⟨hm, rfl, Connection.accepts_nil name config s⟩, ?_⟩
        rw [Connection.built_nil]
        exact (Except.ok.inj h).symm
  · rintro ⟨rs, ⟨hm, hrs, accepts⟩, rfl⟩
    rw [hm]
    cases connections with
    | true => exact Connection.step_stage_eq_ok_iff.mpr ⟨rs, hrs, accepts, rfl⟩
    | false =>
      obtain rfl : rs = [] := hrs
      rw [Connection.built_nil]
      rfl

/-- Before authorization, a run fails on the schema or on the ID of a relation. -/
theorem runFrom_foundation_eq_error (distinct : (s.objects.map ObjectType.name).Nodup)
    {e : BuildError} (h : runFrom (.start s) (foundation name config connections) = .error e) :
    (∃ x, e = .schema x) ∨ ∃ id first, e = .collision id first "connection" := by
  rw [runFrom_foundation name config connections distinct] at h
  cases hm : Model.checkAll s.modelTypes with
  | error x =>
    rw [hm] at h
    exact Or.inl ⟨x, (Except.error.inj h).symm⟩
  | ok u =>
    rw [hm] at h
    cases connections with
    | true => exact Connection.step_stage_eq_error h
    | false => cases h

/-! ## The standard pipeline -/

lemma standardStages_eq (c : BuildConfig) :
    standardStages c = foundation c.apiName c c.connections ++
      (c.userPool.map Auth.stage).toList := by
  obtain ⟨apiName, readCapacity, writeCapacity, connections, userPool⟩ := c
  cases connections <;> cases userPool <;> rfl

lemma check_standardStages (c : BuildConfig) : check (standardStages c) = .ok () := by
  obtain ⟨apiName, readCapacity, writeCapacity, connections, userPool⟩ := c
  cases connections <;> cases userPool <;> rfl

/-- Every configuration has a standard pipeline. -/
theorem exists_standard (c : BuildConfig) : ∃ p, standard c = .ok p := by
  rw [standard, ofStages]
  split
  · rename_i f h
    rw [check_standardStages] at h
    cases h
  · exact ⟨_, rfl⟩

lemma stages_of_standard {c : BuildConfig} {p : Pipeline} (h : standard c = .ok p) :
    p.stages = foundation c.apiName c c.connections ++ (c.userPool.map Auth.stage).toList := by
  rw [standard, ofStages] at h
  split at h
  · cases h
  · obtain rfl := Except.ok.inj h
    exact standardStages_eq c

/-- The directives that have a meaning in the standard pipeline. -/
lemma directives_of_standard {c : BuildConfig} {p : Pipeline} (h : standard c = .ok p) :
    p.directives = [⟨"model", .object⟩] ++
      (if c.connections then [⟨"connection", .field⟩] else []) ++
      (if c.userPool.isSome then [⟨"auth", .object⟩] else []) := by
  rw [directives, stages_of_standard h]
  obtain ⟨apiName, readCapacity, writeCapacity, connections, userPool⟩ := c
  cases connections <;> cases userPool <;> rfl

lemma names_of_standard {c : BuildConfig} {p : Pipeline} (h : standard c = .ok p) :
    p.names = ["api", "model"] ++ (if c.connections then ["connection"] else []) ++
      (if c.userPool.isSome then ["auth"] else []) := by
  rw [names, stages_of_standard h]
  obtain ⟨apiName, readCapacity, writeCapacity, connections, userPool⟩ := c
  cases connections <;> cases userPool <;> rfl

/-- Without relations in the pipeline, no field may have `@connection`. -/
lemma connectionFields_eq_nil {c : BuildConfig} (off : c.connections = false) {p : Pipeline}
    (hp : standard c = .ok p) (handled : p.checkDirectives s = .ok ()) :
    s.connectionFields = [] := by
  have hunhandled : ∀ spec ∈ p.directives, spec.name ≠ "connection" := by
    rw [directives_of_standard hp, off]
    cases c.userPool.isSome <;> decide
  refine List.eq_nil_iff_forall_not_mem.mpr ?_
  rintro ⟨o, f⟩ hx
  obtain ⟨ho, hf, hconnection⟩ := Schema.mem_connectionFields.mp hx
  obtain ⟨d, hd, hname⟩ := directiveNamed?_isSome_iff.mp hconnection
  obtain ⟨spec, hspec, hspecName, _⟩ := checkDirectives_eq_ok_iff.mp handled o ho
    (.field, d) (mem_directivesOf_field.mpr ⟨f, hf, hd⟩)
  exact hunhandled spec hspec (hspecName.trans hname)

/-- What the standard pipeline compiles: what the stages before authorization ask for is there,
and authorization, if it is in the pipeline, has no objection. -/
lemma compileSchema_eq_ok_iff {c : BuildConfig} {p : Pipeline} (hp : standard c = .ok p)
    (distinct : (s.objects.map ObjectType.name).Nodup) {d : Document} :
    p.compileSchema s = .ok d ↔ p.checkDirectives s = .ok () ∧
      ∃ rs, Founded c.apiName c c.connections s rs ∧
        (runFrom (Connection.built c.apiName c s rs) (c.userPool.map Auth.stage).toList).map
          Context.document = .ok d := by
  rw [compileSchema]
  cases p.checkDirectives s with
  | error e => simp
  | ok u =>
    simp only [stages_of_standard hp, runFrom_append, true_and]
    constructor
    · intro h
      cases hrun : runFrom (.start s) (foundation c.apiName c c.connections) with
      | error e =>
        rw [hrun] at h
        cases h
      | ok built =>
        rw [hrun] at h
        obtain ⟨rs, founded, rfl⟩ := (runFrom_foundation_eq_ok_iff distinct).mp hrun
        exact ⟨rs, founded, h⟩
    · rintro ⟨rs, founded, h⟩
      rw [(runFrom_foundation_eq_ok_iff distinct).mpr ⟨rs, founded, rfl⟩]
      exact h

theorem compileSchema_eq_ok_iff_of_none {c : BuildConfig} (noPool : c.userPool = none)
    {p : Pipeline} (hp : standard c = .ok p) (distinct : (s.objects.map ObjectType.name).Nodup)
    {d : Document} :
    p.compileSchema s = .ok d ↔ p.checkDirectives s = .ok () ∧
      ∃ rs, Founded c.apiName c c.connections s rs ∧
        d = (Connection.built c.apiName c s rs).document := by
  rw [compileSchema_eq_ok_iff hp distinct, noPool]
  refine and_congr_right fun _ => exists_congr fun rs => and_congr_right fun _ => ?_
  change Except.ok (Connection.built c.apiName c s rs).document = .ok d ↔ _
  rw [Except.ok.injEq, eq_comm]

theorem compileSchema_eq_ok_iff_of_some {c : BuildConfig} {pool : String}
    (hpool : c.userPool = some pool) {p : Pipeline} (hp : standard c = .ok p)
    (distinct : (s.objects.map ObjectType.name).Nodup) {d : Document} :
    p.compileSchema s = .ok d ↔ p.checkDirectives s = .ok () ∧
      (∀ o ∈ s.objects, Auth.Guardable o) ∧
      ∃ rs, Founded c.apiName c c.connections s rs ∧
        d = (Auth.built pool c.apiName c s rs).document := by
  rw [compileSchema_eq_ok_iff hp distinct, hpool]
  refine and_congr_right fun _ => ?_
  rw [← exists_and_left]
  refine exists_congr fun rs => ?_
  rw [and_left_comm]
  refine and_congr_right fun _ => ?_
  change (runFrom _ [Auth.stage pool]).map _ = _ ↔ _
  rw [runFrom_singleton]
  rcases Auth.step_stage_cases pool c.apiName c distinct rs with
    ⟨⟨o, ho, hnot⟩, x, hstep⟩ | ⟨guardable, hstep⟩
  · rw [hstep]
    constructor
    · intro h
      cases h
    · rintro ⟨guardable, _⟩
      exact absurd (guardable o ho) hnot
  · rw [hstep]
    constructor
    · intro h
      exact ⟨guardable, (Except.ok.inj h).symm⟩
    · rintro ⟨_, rfl⟩
      rfl

end SchemaStack.Pipeline
