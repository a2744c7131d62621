import SchemaStack.Proofs.Build.Contracts
import SchemaStack.Proofs.Directive.Foundation
/-!
# The resources of a document

For the stages that come with the compiler, in every accepted combination that has the API, the
resources of a document can be read off the schema: those of the API, of each model type and of
each relation, in declaration order. A compilation that ends without a document has a faulty schema
or a relation whose resolver has a taken ID.
-/

namespace SchemaStack

namespace Pipeline

variable {name : String} {config : BuildConfig} {connections : Bool} {s : Schema}

/-! ## The resources that are expected -/

/-- The resources of the API. -/
def apiResources : List (String × ResourceType) :=
  [("GraphQLApi", .api), ("GraphQLApiKey", .apiKey), ("GraphQLSchema", .schema)]

/-- The resources of a model type. -/
def modelResources (type : String) : List (String × ResourceType) :=
  [(type ++ "Table", .table), (type ++ "IAMRole", .role), (type ++ "DataSource", .dataSource),
   ("Get" ++ type ++ "Resolver", .resolver), ("List" ++ type ++ "Resolver", .resolver),
   ("Create" ++ type ++ "Resolver", .resolver), ("Update" ++ type ++ "Resolver", .resolver),
   ("Delete" ++ type ++ "Resolver", .resolver)]

/-- The resource of a field with `@connection`. -/
def relationResource (x : ObjectType × Field) : String × ResourceType :=
  (x.1.name ++ Text.upperFirst x.2.name ++ "Resolver", .resolver)

/-- What stages of the given names make of a schema. -/
def resourceList (stages : List String) (s : Schema) : List (String × ResourceType) :=
  apiResources ++
    (if "model" ∈ stages then s.modelTypes.flatMap fun o => modelResources o.name else []) ++
    (if "connection" ∈ stages then s.connectionFields.map relationResource else [])

lemma outline_api_built (name : String) (s : Schema) :
    (Api.built name s).document.outline = apiResources := rfl

lemma outline_model_built (name : String) (config : BuildConfig) (s : Schema) :
    (Model.built name config s).document.outline =
      apiResources ++ s.modelTypes.flatMap fun o => modelResources o.name := by
  refine (Context.outline_apply _ _).trans (congrArg₂ _ (outline_api_built name s) ?_)
  change outlineOf ((s.modelTypes.map ObjectType.name).flatMap (Model.entries config)) = _
  rw [outlineOf, List.map_flatMap, List.flatMap_map]
  rfl

lemma outline_connection_built (distinct : (s.objects.map ObjectType.name).Nodup)
    {rs : List Relation} (founded : Founded name config connections s rs) :
    (Connection.built name config s rs).document.outline =
      apiResources ++ (s.modelTypes.flatMap fun o => modelResources o.name) ++
        (if connections then s.connectionFields.map relationResource else []) := by
  rw [Connection.outline_built name config (founded.resolved distinct), outline_model_built]
  refine congrArg _ ?_
  have hrs := founded.relations
  cases connections with
  | true =>
    have hids := Connection.map_resolverId_of_relations hrs
    have hpairs := congrArg (List.map fun id => (id, ResourceType.resolver)) hids
    rwa [List.map_map, List.map_map] at hpairs
  | false =>
    obtain rfl : rs = [] := hrs
    rfl

/-! ## Accepted lists of built-in stages -/

/-- A stage that comes with the compiler, for some configuration. -/
def BuiltIn (st : Stage) : Prop :=
  ∃ (c : BuildConfig) (k : StandardStage), k.build? c = some st

lemma BuiltIn.cases {st : Stage} (h : BuiltIn st) :
    (∃ name, st = Api.stage name) ∨ (∃ config, st = Model.stage config) ∨
      st = Connection.stage ∨ ∃ pool, st = Auth.stage pool := by
  obtain ⟨c, k, hk⟩ := h
  cases k with
  | api => exact Or.inl ⟨_, (Option.some.inj hk).symm⟩
  | model => exact Or.inr (Or.inl ⟨_, (Option.some.inj hk).symm⟩)
  | connection =>
    rw [StandardStage.build?] at hk
    split at hk
    · exact Or.inr (Or.inr (Or.inl (Option.some.inj hk).symm))
    · cases hk
  | auth =>
    obtain ⟨pool, _, rfl⟩ := Option.map_eq_some_iff.mp hk
    exact Or.inr (Or.inr (Or.inr ⟨pool, rfl⟩))

lemma rest_eq_of_all_taken {names : List String} {provided : List Capability} {rest : List Stage}
    (builtIn : ∀ st ∈ rest, BuiltIn st)
    (taken : "api" ∈ names ∧ "model" ∈ names ∧ "connection" ∈ names)
    (accepted : checkFrom names provided rest = .ok ()) :
    ∃ pool, rest = (Option.map Auth.stage pool).toList := by
  obtain ⟨hapi, hmodel, hconnection⟩ := taken
  cases rest with
  | nil => exact ⟨none, rfl⟩
  | cons st ss =>
    obtain ⟨hname, _, hlast, _⟩ := checkFrom_cons_eq_ok_iff.mp accepted
    rcases (builtIn st List.mem_cons_self).cases with ⟨_, rfl⟩ | ⟨_, rfl⟩ | rfl | ⟨pool, rfl⟩
    · exact absurd hapi hname
    · exact absurd hmodel hname
    · exact absurd hconnection hname
    · obtain rfl := hlast rfl
      exact ⟨some pool, rfl⟩

lemma rest_eq_of_model {names : List String} {provided : List Capability} {rest : List Stage}
    (builtIn : ∀ st ∈ rest, BuiltIn st) (taken : "api" ∈ names ∧ "model" ∈ names)
    (accepted : checkFrom names provided rest = .ok ()) :
    ∃ (connections : Bool) (pool : Option String),
      rest = (if connections then [Connection.stage] else []) ++
        (Option.map Auth.stage pool).toList := by
  obtain ⟨hapi, hmodel⟩ := taken
  cases rest with
  | nil => exact ⟨false, none, rfl⟩
  | cons st ss =>
    obtain ⟨hname, _, hlast, hrest⟩ := checkFrom_cons_eq_ok_iff.mp accepted
    rcases (builtIn st List.mem_cons_self).cases with ⟨_, rfl⟩ | ⟨_, rfl⟩ | rfl | ⟨pool, rfl⟩
    · exact absurd hapi hname
    · exact absurd hmodel hname
    · obtain ⟨pool, rfl⟩ := rest_eq_of_all_taken
        (fun st hst => builtIn st (List.mem_cons_of_mem _ hst))
        ⟨List.mem_cons_of_mem _ hapi, List.mem_cons_of_mem _ hmodel, List.mem_cons_self⟩ hrest
      exact ⟨true, pool, rfl⟩
    · obtain rfl := hlast rfl
      exact ⟨false, some pool, rfl⟩

/-- With the API, what is accepted is the API alone, or the API and the model types with or
without relations and authorization. -/
lemma stages_cases {stages : List Stage} (builtIn : ∀ st ∈ stages, BuiltIn st)
    (accepted : check stages = .ok ()) (api : "api" ∈ stages.map Stage.name) :
    ∃ name, stages = [Api.stage name] ∨
      ∃ (config : BuildConfig) (connections : Bool) (pool : Option String),
        stages = foundation name config connections ++ (Option.map Auth.stage pool).toList := by
  cases stages with
  | nil => cases api
  | cons st rest =>
    obtain ⟨_, hrequires, _, hrest⟩ := checkFrom_cons_eq_ok_iff.mp accepted
    -- every other stage requires what nothing provides yet
    obtain ⟨name, rfl⟩ : ∃ name, st = Api.stage name := by
      rcases (builtIn st List.mem_cons_self).cases with h | ⟨_, rfl⟩ | rfl | ⟨_, rfl⟩
      · exact h
      · exact absurd (hrequires .api List.mem_cons_self) List.not_mem_nil
      · exact absurd (hrequires .typeRegistry List.mem_cons_self) List.not_mem_nil
      · exact absurd (hrequires .api List.mem_cons_self) List.not_mem_nil
    refine ⟨name, ?_⟩
    have builtIn' : ∀ st ∈ rest, BuiltIn st := fun st hst =>
      builtIn st (List.mem_cons_of_mem _ hst)
    cases rest with
    | nil => exact Or.inl rfl
    | cons st ss =>
      obtain ⟨hname, hrequires, _, hrest⟩ := checkFrom_cons_eq_ok_iff.mp hrest
      -- relations and authorization require what the model types provide
      obtain ⟨config, rfl⟩ : ∃ config, st = Model.stage config := by
        rcases (builtIn' st List.mem_cons_self).cases with ⟨_, rfl⟩ | h | rfl | ⟨_, rfl⟩
        · exact absurd List.mem_cons_self hname
        · exact h
        · exact absurd (hrequires .modelTables (by simp [Connection.stage])) (by simp [Api.stage])
        · exact absurd (hrequires .resolvers (by simp [Auth.stage])) (by simp [Api.stage])
      obtain ⟨connections, pool, rfl⟩ := rest_eq_of_model
        (fun st hst => builtIn' st (List.mem_cons_of_mem _ hst))
        ⟨List.mem_cons_of_mem _ List.mem_cons_self, List.mem_cons_self⟩ hrest
      exact Or.inr ⟨config, connections, pool, rfl⟩

/-! ## The result -/

lemma names_foundation (name : String) (config : BuildConfig) (connections : Bool)
    (pool : Option String) :
    "model" ∈ (foundation name config connections ++
        (Option.map Auth.stage pool).toList).map Stage.name ∧
      ("connection" ∈ (foundation name config connections ++
        (Option.map Auth.stage pool).toList).map Stage.name ↔ connections = true) := by
  cases connections <;> cases pool <;>
    simp [foundation, Api.stage, Model.stage, Connection.stage, Auth.stage]

lemma runFrom_auth_cases (name : String) (config : BuildConfig) (pool : Option String)
    (distinct : (s.objects.map ObjectType.name).Nodup)
    (rs : List Relation) :
    (∃ x, runFrom (Connection.built name config s rs) (Option.map Auth.stage pool).toList =
        .error (.schema x)) ∨
      ∃ c, runFrom (Connection.built name config s rs) (Option.map Auth.stage pool).toList = .ok c ∧
        c.document.outline = (Connection.built name config s rs).document.outline := by
  cases pool with
  | none => exact Or.inr ⟨_, rfl, rfl⟩
  | some pool =>
    change (∃ x, runFrom _ [Auth.stage pool] = _) ∨ ∃ c, runFrom _ [Auth.stage pool] = _ ∧ _
    rw [runFrom_singleton]
    rcases Auth.step_stage_cases pool name config distinct rs with ⟨_, h⟩ | ⟨_, h⟩
    · exact Or.inl h
    · exact Or.inr ⟨_, h, Auth.outline_built pool name config s rs⟩

/-- The resources of a document are those that its schema asks for, whatever built-in stages
compile it. Without a document, the schema is faulty or the resolver of a relation has a taken
ID. -/
theorem compile_resourceList {p : Pipeline} (builtIn : ∀ st ∈ p.stages, BuiltIn st)
    (api : "api" ∈ p.names) (text : String) :
    match p.compile text with
    | .ok d => ∃ s, Schema.parse text = .ok s ∧ d.outline = resourceList p.names s
    | .error e => (∃ x, e = .schema x) ∨ ∃ id first, e = .collision id first "connection" := by
  rw [compile]
  cases hparse : Schema.parse text with
  | error x => exact Or.inl ⟨x, rfl⟩
  | ok s =>
    have distinct := Schema.nodup_objects (Schema.check_of_parse hparse)
    cases hdirectives : p.checkDirectives s with
    | error x =>
      simp only [compileSchema, hdirectives]
      exact Or.inl ⟨x, rfl⟩
    | ok u =>
      simp only [compileSchema_eq_run hdirectives]
      obtain ⟨name, hstages | ⟨config, connections, pool, hstages⟩⟩ :=
        stages_cases builtIn p.accepted api
      · have hrun : runFrom (.start s) p.stages = .ok (Api.built name s) := by
          rw [hstages, runFrom_singleton, Api.step_stage name distinct]
        rw [hrun]
        refine ⟨s, rfl, ?_⟩
        simp [names, hstages, resourceList, Api.stage, outline_api_built]
      · obtain ⟨hmodel, hconnection⟩ := names_foundation name config connections pool
        rw [← hstages] at hmodel hconnection
        cases hfront : runFrom (.start s) (foundation name config connections) with
        | error e =>
          rw [hstages, runFrom_append, hfront]
          exact runFrom_foundation_eq_error distinct hfront
        | ok c =>
          obtain ⟨rs, founded, rfl⟩ := (runFrom_foundation_eq_ok_iff distinct).mp hfront
          rw [hstages, runFrom_append, hfront]
          rcases runFrom_auth_cases name config pool distinct rs with
            ⟨x, hx⟩ | ⟨c, hc, houtline⟩
          · simp only [Except.bind, hx, Except.map]
            exact Or.inl ⟨x, rfl⟩
          · simp only [Except.bind, hc, Except.map]
            refine ⟨s, rfl, ?_⟩
            rw [houtline, outline_connection_built distinct founded, resourceList, names,
              if_pos hmodel]
            simp only [hconnection]

/-- The resources of a schema in the standard pipeline, where a field with `@connection` means that
relations are wanted. -/
lemma outline_of_compileSchema {c : BuildConfig} {p : Pipeline} (hp : standard c = .ok p)
    (distinct : (s.objects.map ObjectType.name).Nodup) {d : Document}
    (compiled : p.compileSchema s = .ok d) :
    d.outline = apiResources ++ (s.modelTypes.flatMap fun o => modelResources o.name) ++
      s.connectionFields.map relationResource := by
  obtain ⟨handled, rs, founded, hrun⟩ := (compileSchema_eq_ok_iff hp distinct).mp compiled
  have houtline := outline_connection_built distinct founded
  have hrelations : (if c.connections then s.connectionFields.map relationResource else []) =
      s.connectionFields.map relationResource := by
    cases hconnections : c.connections with
    | true => rfl
    | false =>
      rw [connectionFields_eq_nil hconnections hp handled]
      rfl
  rw [hrelations] at houtline
  rcases runFrom_auth_cases c.apiName c c.userPool distinct rs with ⟨x, hx⟩ | ⟨built, hbuilt, hsame⟩
  · rw [hx] at hrun
    cases hrun
  · rw [hbuilt] at hrun
    obtain rfl := Except.ok.inj hrun
    exact hsame.trans houtline

/-- The tables of a document are those of its model types. -/
lemma exists_of_table {c : BuildConfig} {p : Pipeline} (hp : standard c = .ok p)
    (distinct : (s.objects.map ObjectType.name).Nodup) {d : Document}
    (compiled : p.compileSchema s = .ok d) {table : String}
    (h : (table, ResourceType.table) ∈ d.outline) :
    ∃ o ∈ s.modelTypes, table = o.name ++ "Table" := by
  rw [outline_of_compileSchema hp distinct compiled] at h
  rcases List.mem_append.mp h with h | h
  · rcases List.mem_append.mp h with h | h
    · simp [apiResources] at h
    · obtain ⟨o, ho, h⟩ := List.mem_flatMap.mp h
      exact ⟨o, ho, by simpa [modelResources] using h⟩
  · obtain ⟨x, _, h⟩ := List.mem_map.mp h
    cases (Prod.mk.inj h).2

/-- The stages before authorization, and a schema for them. -/
def blogPipeline : Pipeline :=
  ⟨[Api.stage "blog", Model.stage { apiName := "blog" }, Connection.stage], rfl⟩

def blogText : String :=
  "type Blog @model \x7b id: ID! posts: [Post] @connection \x7d type Post @model \x7b id: ID! \x7d"

lemma builtIn_blogPipeline : ∀ st ∈ blogPipeline.stages, BuiltIn st := by
  intro st hst
  simp only [blogPipeline, List.mem_cons, List.not_mem_nil, or_false] at hst
  rcases hst with rfl | rfl | rfl
  · exact ⟨{ apiName := "blog" }, .api, rfl⟩
  · exact ⟨{ apiName := "blog" }, .model, rfl⟩
  · exact ⟨{ apiName := "blog" }, .connection, rfl⟩

theorem compile_blogText :
    ∃ d, blogPipeline.compile blogText = .ok d ∧
      d.outline = apiResources ++ (modelResources "Blog" ++ modelResources "Post") ++
        [("BlogPostsResolver", .resolver)] := by
  have hlist := compile_resourceList builtIn_blogPipeline (by decide) blogText
  have hok : (blogPipeline.compile blogText).toOption.isSome := by decide +kernel
  have hexpected : (Schema.parse blogText).toOption.map (resourceList blogPipeline.names) =
      some (apiResources ++ (modelResources "Blog" ++ modelResources "Post") ++
        [("BlogPostsResolver", .resolver)]) := by decide +kernel
  cases hcompile : blogPipeline.compile blogText with
  | error e =>
    rw [hcompile] at hok
    cases hok
  | ok d =>
    rw [hcompile] at hlist
    obtain ⟨s, hparse, houtline⟩ := hlist
    rw [hparse] at hexpected
    exact ⟨d, rfl, houtline.trans (Option.some.inj hexpected)⟩

end Pipeline

end SchemaStack
