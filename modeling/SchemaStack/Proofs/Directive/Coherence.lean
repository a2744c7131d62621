import SchemaStack.Proofs.Directive.Readiness
/-!
# What stages find

Whatever built-in stages make up a pipeline, each of them finds a build in which what is registered
and what stands in the document fit. Stages register first and contribute afterwards, so this holds
between the stages and not within one. A stage that looks something up that an earlier one has left
therefore finds it, and what it amends is there. The indexes of a table are not among these things:
no stage before the relations adds any, so a table without them is complete.
-/

namespace SchemaStack

def Artifacts.modelList (a : Artifacts) : List Model := a.models.map Prod.snd

/-- The resources of a model type stand in a document. -/
structure Model.Stands (d : Document) (m : Model) : Prop where
  table : d.Holds m.table .table
  role : d.Holds m.role .role
  dataSource : d.Holds m.dataSource .dataSource
  operations : m.resolvers.map Prod.fst = Operation.all
  resolvers : ∀ x ∈ m.resolvers, d.Holds x.2 .resolver

/-- What is registered and what stands in the document fit, once the named stages are merged. -/
structure Context.Coherent (s : Schema) (merged : List String) (c : Context) : Prop where
  types : "api" ∈ merged → c.artifacts.types = s.typeTable
  standing : ∀ m ∈ c.artifacts.modelList, m.Stands c.document
  typed : ∀ m ∈ c.artifacts.modelList, ∃ o,
    c.artifacts.types.get? m.typeName = some o ∧ (o.directive? "model").isSome
  once : (c.artifacts.modelList.map Model.typeName).Nodup
  ordered : (c.artifacts.modelList.map Model.typeName).Sublist
    (s.objects.map ObjectType.name).eraseDups
  complete : "model" ∈ merged → ∀ name o, c.artifacts.types.get? name = some o →
    (o.directive? "model").isSome → ∃ m ∈ c.artifacts.modelList, m.typeName = name
  relations : ∀ id ∈ c.artifacts.connections, c.document.Holds id .resolver
  definition : ∀ r, c.document.get? Api.schemaId = some r →
    ∃ rest, r.property? "Definition" = some (.string (s.text ++ rest))

/-- A relation finds the model that it reads, and in its table the attributes and the throughput of
an index. Nothing has given the table an index before. -/
structure Connection.Supplied (c : Context) (r : Relation) (m : Model) : Prop where
  model : c.artifacts.model? r.target = some m
  table : c.document.Holds m.table .table
  attributes : ∃ items,
    (c.document.property? m.table "AttributeDefinitions").bind Json.array? = some items
  throughput : ∃ v, c.document.property? m.table "ProvisionedThroughput" = some v
  unindexed : c.document.property? m.table "GlobalSecondaryIndexes" = none

/-- What a stage looks up is there, and so is what it amends. -/
structure Stage.Supplied (c : Context) (st : Stage) : Prop where
  /-- The model types find the text that they extend. -/
  definition : st.name = "model" →
    ∃ base, (c.document.property? Api.schemaId "Definition").bind Json.string? = some base
  /-- Where models are looked up, every model type has been registered. -/
  models : st.name = "connection" ∨ st.name = "auth" → ∀ name o,
    c.artifacts.types.get? name = some o → (o.directive? "model").isSome →
      ∃ m, c.artifacts.model? name = some m
  relations : st.name = "connection" → ∀ rs, Connection.relations c.artifacts = .ok rs →
    ∀ r ∈ rs, ∃ m, Connection.Supplied c r m
  /-- The guards of a model type find its resolvers, and in each the request that they guard. -/
  requests : st.name = "auth" → ∀ m ∈ c.artifacts.modelList, ∀ x ∈ m.resolvers,
    ∃ r request, c.document.get? x.2 = some r ∧
      (r.property? "RequestMappingTemplate").bind Json.string? = some request
  targets : ∀ stage target, Pipeline.step c st ≠ .error (.amendment stage target)

namespace Context.Ready

variable {s : Schema} {merged : List String} {c : Context}

lemma exists_of_mem_modelList (ready : c.Ready s merged) {m : Model}
    (hm : m ∈ c.artifacts.modelList) :
    ∃ name, m = Model.ofType name ∧ c.artifacts.model? name = some m := by
  obtain ⟨e, he, rfl⟩ := List.mem_map.mp hm
  have distinct : (Entries.keys c.artifacts.models).Nodup := by
    rw [ready.models]
    split
    · exact Schema.nodup_keys_modelTable s
    · exact List.nodup_nil
  have hname : c.artifacts.model? e.1 = some e.2 := Entries.get?_of_mem distinct he
  exact ⟨e.1, (ready.of_model? hname).1, hname⟩

lemma stands (ready : c.Ready s merged) {m : Model} (hm : m ∈ c.artifacts.modelList) :
    m.Stands c.document := by
  obtain ⟨name, rfl, hname⟩ := ready.exists_of_mem_modelList hm
  have holds : ∀ x ∈ Pipeline.modelResources name, c.document.Holds x.1 x.2 :=
    fun x hx => ready.model_holds hname hx
  simp only [Pipeline.modelResources, List.forall_mem_cons] at holds
  obtain ⟨table, role, dataSource, get, list, create, update, delete, _⟩ := holds
  refine ⟨table, role, dataSource, rfl, fun x hx => ?_⟩
  obtain ⟨op, _, rfl⟩ := List.mem_map.mp hx
  cases op with
  | get => exact get
  | list => exact list
  | create => exact create
  | update => exact update
  | delete => exact delete

/-- Every model type is registered under its own name. -/
lemma map_typeName_modelList (ready : c.Ready s merged) :
    c.artifacts.modelList.map Model.typeName = Entries.keys c.artifacts.models := by
  rw [Artifacts.modelList, Entries.keys, List.map_map]
  refine List.map_congr_left fun e he => ?_
  rw [ready.models] at he
  split at he
  · obtain ⟨_, _, _, hm⟩ := Schema.mem_modelTable_iff.mp he
    exact congrArg Model.typeName hm
  · cases he

lemma typeNames_sublist (ready : c.Ready s merged) :
    (c.artifacts.modelList.map Model.typeName).Sublist (Entries.keys s.typeTable) := by
  rw [ready.map_typeName_modelList, ready.models]
  split
  · exact Schema.keys_modelTable_sublist s
  · exact List.nil_sublist _

lemma model?_of_type (ready : c.Ready s merged) (hmerged : "model" ∈ merged) {name : String}
    {o : ObjectType} (ho : c.artifacts.types.get? name = some o)
    (hmodel : (o.directive? "model").isSome) :
    c.artifacts.model? name = some (Model.ofType name) := by
  rw [ready.types] at ho
  rw [Artifacts.model?, ready.models, if_pos hmerged]
  exact Entries.get?_of_mem (Schema.nodup_keys_modelTable s)
    (Schema.mem_modelTable_iff.mpr ⟨o, ho, hmodel, rfl⟩)

theorem coherent (ready : c.Ready s merged) : c.Coherent s merged where
  types := fun _ => ready.types
  standing := fun m hm => ready.stands hm
  typed := by
    intro m hm
    obtain ⟨name, rfl, hname⟩ := ready.exists_of_mem_modelList hm
    rw [ready.types]
    exact (ready.of_model? hname).2
  once := ready.typeNames_sublist.nodup (Schema.nodup_keys_typeTable s)
  ordered := Schema.keys_typeTable s ▸ ready.typeNames_sublist
  complete := by
    intro hmerged name o ho hmodel
    have hmem := Entries.mem_of_get? (ready.model?_of_type hmerged ho hmodel)
    exact ⟨Model.ofType name, List.mem_map.mpr ⟨_, hmem, rfl⟩, rfl⟩
  relations := fun id hid => ready.holds (Artifacts.mem_outline_of_connection hid)
  definition := by
    intro r hr
    obtain ⟨rest, h⟩ := ready.definition
    rw [Document.property?, hr] at h
    exact ⟨rest, h⟩

/-! ## Look-ups -/

lemma supplied_of_relations (ready : c.Ready s merged) (first : "connection" ∉ merged)
    {rs : List Relation} (hrs : Connection.relations c.artifacts = .ok rs) {r : Relation}
    (hr : r ∈ rs) : ∃ m, Connection.Supplied c r m := by
  obtain ⟨⟨o, f⟩, _, hresolve⟩ :=
    Connection.exists_of_mem_forall₂ (Connection.forall₂_of_relationsFrom hrs) hr
  obtain ⟨_, _, ⟨t, ht, htarget⟩, _, ⟨m, hm⟩⟩ := Connection.joins_of_resolve hresolve
  have hname : r.target = f.type.base := by
    rw [ready.types] at ht
    exact htarget.trans (Schema.name_of_mem_typeTable (Entries.mem_of_get? ht))
  rw [← hname] at hm
  obtain ⟨rfl, _⟩ := ready.of_model? hm
  have table : c.document.Holds (r.target ++ "Table") .table :=
    ready.model_holds hm List.mem_cons_self
  obtain ⟨⟨_, attributes, throughput, _⟩, unindexed⟩ :=
    Schema.forall_demands_iff.mp ready.demands
  obtain ⟨items, hitems⟩ := attributes.property? table
  have hattributes : c.document.property? (r.target ++ "Table") "AttributeDefinitions" =
      some (.array items) := hitems
  exact ⟨_, hm, table, ⟨items, by rw [Model.ofType, hattributes]; rfl⟩, throughput.property? table,
    (unindexed first).property? table⟩

lemma supplied_of_guards (ready : c.Ready s merged) {m : Model} (hm : m ∈ c.artifacts.modelList)
    {x : Operation × String} (hx : x ∈ m.resolvers) :
    ∃ r request, c.document.get? x.2 = some r ∧
      (r.property? "RequestMappingTemplate").bind Json.string? = some request := by
  obtain ⟨r, hr, htype⟩ := (ready.stands hm).resolvers x hx
  obtain ⟨⟨_, _, _, requests⟩, _⟩ := Schema.forall_demands_iff.mp ready.demands
  obtain ⟨text, htext⟩ := requests x.2 r hr htype
  have hrequest : r.property? "RequestMappingTemplate" = some (.string text) := htext
  exact ⟨r, text, hr, by rw [hrequest]; rfl⟩

end Context.Ready

namespace Pipeline

/-! ## Places of built-in stages -/

namespace BuiltIn

variable {st : Stage} (h : BuiltIn st)
include h

lemma name_of_provides_base {c : Capability} (hc : c ∈ st.provides)
    (base : c = .api ∨ c = .typeRegistry) : st.name = "api" := by
  rcases h.cases with ⟨_, rfl⟩ | ⟨_, rfl⟩ | rfl | ⟨_, rfl⟩ <;> rcases base with rfl | rfl <;>
    simp_all [Api.stage, Model.stage, Connection.stage, Auth.stage]

lemma name_of_provides_modelTables (hc : .modelTables ∈ st.provides) : st.name = "model" := by
  rcases h.cases with ⟨_, rfl⟩ | ⟨_, rfl⟩ | rfl | ⟨_, rfl⟩ <;>
    simp_all [Api.stage, Model.stage, Connection.stage, Auth.stage]

/-- Relations provide resolvers as well, but require the model types for it. -/
lemma model_of_provides_resolvers (hc : .resolvers ∈ st.provides) :
    st.name = "model" ∨ .modelTables ∈ st.requires := by
  rcases h.cases with ⟨_, rfl⟩ | ⟨_, rfl⟩ | rfl | ⟨_, rfl⟩ <;>
    simp_all [Api.stage, Model.stage, Connection.stage, Auth.stage]

lemma requires_base (other : st.name ≠ "api") :
    ∃ c ∈ st.requires, c = .api ∨ c = .typeRegistry := by
  rcases h.cases with ⟨_, rfl⟩ | ⟨_, rfl⟩ | rfl | ⟨_, rfl⟩
  · exact absurd rfl other
  · exact ⟨.api, by simp [Model.stage], Or.inl rfl⟩
  · exact ⟨.typeRegistry, by simp [Connection.stage], Or.inr rfl⟩
  · exact ⟨.api, by simp [Auth.stage], Or.inl rfl⟩

end BuiltIn

section Places

variable {stages : List Stage} (builtIn : ∀ st ∈ stages, BuiltIn st)
  (contracted : Contracted stages) {before after : List Stage} {st : Stage}
  (place : stages = before ++ st :: after)
include builtIn contracted place

lemma exists_provider {c : Capability} (hc : c ∈ st.requires) :
    ∃ t ∈ before, BuiltIn t ∧ c ∈ t.provides := by
  obtain ⟨t, ht, hprovides⟩ := contracted.supplied before st after place c hc
  exact ⟨t, ht, builtIn t (place ▸ List.mem_append_left _ ht), hprovides⟩

/-- Every stage but the API comes after the API. -/
lemma api_mem_before (other : st.name ≠ "api") : "api" ∈ before.map Stage.name := by
  obtain ⟨c, hc, base⟩ := (builtIn st (by simp [place])).requires_base other
  obtain ⟨t, ht, builtInT, hprovides⟩ := exists_provider builtIn contracted place hc
  exact List.mem_map.mpr ⟨t, ht, builtInT.name_of_provides_base hprovides base⟩

lemma model_mem_before_of_tables (tables : .modelTables ∈ st.requires) :
    "model" ∈ before.map Stage.name := by
  obtain ⟨t, ht, builtInT, hprovides⟩ := exists_provider builtIn contracted place tables
  exact List.mem_map.mpr ⟨t, ht, builtInT.name_of_provides_modelTables hprovides⟩

lemma model_mem_before_of_resolvers (resolvers : .resolvers ∈ st.requires) :
    "model" ∈ before.map Stage.name := by
  obtain ⟨t, ht, builtInT, hprovides⟩ := exists_provider builtIn contracted place resolvers
  rcases builtInT.model_of_provides_resolvers hprovides with hmodel | htables
  · exact List.mem_map.mpr ⟨t, ht, hmodel⟩
  -- the provider is among the stages before, and the model types are before the provider
  · obtain ⟨b, a, rfl⟩ := List.append_of_mem ht
    have hplace : stages = b ++ t :: (a ++ st :: after) := by simpa using place
    have hmem := model_mem_before_of_tables builtIn contracted hplace htables
    rw [List.map_append]
    exact List.mem_append_left _ hmem

/-- Relations and authorization come after the model types. -/
lemma model_mem_before (h : st.name = "connection" ∨ st.name = "auth") :
    "model" ∈ before.map Stage.name := by
  rcases (builtIn st (by simp [place])).cases with ⟨_, rfl⟩ | ⟨_, rfl⟩ | rfl | ⟨_, rfl⟩
  · simp [Api.stage] at h
  · simp [Model.stage] at h
  · exact model_mem_before_of_tables builtIn contracted place (by simp [Connection.stage])
  · exact model_mem_before_of_resolvers builtIn contracted place (by simp [Auth.stage])

lemma before_eq_nil_of_api (api : st.name = "api") : before = [] := by
  cases before with
  | nil => rfl
  | cons t b =>
    have fresh := nodup_names_iff.mp contracted.distinct (t :: b) st after place
    have hfirst : stages = [] ++ t :: (b ++ st :: after) := place
    by_cases ht : t.name = "api"
    · exact absurd (List.mem_map.mpr ⟨t, List.mem_cons_self, ht.trans api.symm⟩) fresh
    · exact absurd (api_mem_before builtIn contracted hfirst ht) List.not_mem_nil

end Places

/-! ## Runs -/

/-- What the stage after the given ones finds: a fresh build or one that is ready for it. -/
inductive Finds (s : Schema) : List Stage → Context → Prop
  | fresh : Finds s [] (.start s)
  | ready {before : List Stage} {c : Context} :
      before ≠ [] → c.Ready s (before.map Stage.name) → Finds s before c

variable {s : Schema} {before after : List Stage} {st : Stage} {c c' : Context}

lemma Finds.reached (finds : Finds s before c) : ∃ h, c.Reached h := by
  cases finds with
  | fresh => exact ⟨[], .start s⟩
  | ready _ ready => exact ready.reached

lemma Finds.met (finds : Finds s before c) {q : Demand}
    (hq : q ∈ s.demands (before.map Stage.name)) : q.Met c.document := by
  cases finds with
  | fresh =>
    intro id r hr
    cases hr
  | ready _ ready => exact ready.demands q hq

lemma Finds.coherent (finds : Finds s before c) : c.Coherent s (before.map Stage.name) := by
  cases finds with
  | fresh =>
    exact
      { types := nofun
        standing := nofun
        typed := nofun
        once := List.nodup_nil
        ordered := List.nil_sublist _
        complete := nofun
        relations := nofun
        definition := nofun }
  | ready _ ready => exact ready.coherent

section Runs

variable {p : Pipeline} (builtIn : ∀ st ∈ p.stages, BuiltIn st)
  (place : p.stages = before ++ st :: after)
include builtIn place

/-- The API is first, and all others find a build that is ready. -/
lemma Finds.ready_of_ne (finds : Finds s before c) (other : st.name ≠ "api") :
    c.Ready s (before.map Stage.name) := by
  have hapi := api_mem_before builtIn p.contracted place other
  cases finds with
  | fresh => cases hapi
  | ready _ ready => exact ready

lemma Finds.continues (finds : Finds s before c) :
    st.Continues s (before.map Stage.name) c := by
  have ready := finds.ready_of_ne builtIn place
  have once := nodup_names_iff.mp p.contracted.distinct before st after place
  rcases (builtIn st (by simp [place])).cases with ⟨name, rfl⟩ | ⟨config, rfl⟩ | rfl | ⟨pool, rfl⟩
  -- nothing comes before the API, so it finds the build that nothing has been merged into
  · obtain rfl := before_eq_nil_of_api builtIn p.contracted place rfl
    cases finds with
    | fresh => exact Api.continues name s
    | ready hne _ => exact absurd rfl hne
  · exact Model.continues config (ready (show "model" ≠ "api" by decide)) once
  · exact Connection.continues (ready (show "connection" ≠ "api" by decide))
  · exact Auth.continues pool (ready (show "auth" ≠ "api" by decide))

lemma Finds.step (finds : Finds s before c) (h : step c st = .ok c') :
    Finds s (before ++ [st]) c' := by
  refine .ready (by simp) ?_
  rw [List.map_append]
  refine ready_of_step (finds.continues builtIn place) finds.reached (fun q hq => ?_) h
  exact finds.met (s.demands_subset _ _ hq)

lemma Finds.supplied (finds : Finds s before c) : st.Supplied c := by
  have ready := finds.ready_of_ne builtIn place
  have once := nodup_names_iff.mp p.contracted.distinct before st after place
  constructor
  · intro hname
    obtain ⟨rest, h⟩ := (ready (by simp [hname])).definition
    exact ⟨s.text ++ rest, by rw [h]; rfl⟩
  · intro hname name o ho hmodel
    have hmerged := model_mem_before builtIn p.contracted place hname
    have other : st.name ≠ "api" := by rcases hname with h | h <;> simp [h]
    exact ⟨_, (ready other).model?_of_type hmerged ho hmodel⟩
  · intro hname rs hrs r hr
    exact (ready (by simp [hname])).supplied_of_relations (hname ▸ once) hrs hr
  · intro hname m hm x hx
    exact (ready (by simp [hname])).supplied_of_guards hm hx
  · exact step_ne_amendment (finds.continues builtIn place)

end Runs

/-- Stage by stage, a run stays with builds that are ready. -/
lemma finds_of_mem_startsFrom {p : Pipeline} (builtIn : ∀ st ∈ p.stages, BuiltIn st)
    {ss : List Stage} (place : p.stages = before ++ ss) (finds : Finds s before c)
    {x : Stage × Context} (hx : x ∈ startsFrom c ss) :
    ∃ before' after', p.stages = before' ++ x.1 :: after' ∧ Finds s before' x.2 := by
  induction ss generalizing before c with
  | nil => cases hx
  | cons st ss ih =>
    rcases List.mem_cons.mp hx with rfl | hx
    · exact ⟨before, ss, place, finds⟩
    · cases hs : step c st with
      | error e =>
        rw [hs] at hx
        cases hx
      | ok c' =>
        rw [hs] at hx
        exact ih (by simpa using place) (finds.step builtIn place hs) hx

/-- Every stage that starts finds the build coherent and whatever it looks up there. -/
theorem coherent_at_start {p : Pipeline} (builtIn : ∀ st ∈ p.stages, BuiltIn st) (s : Schema)
    {x : Stage × Context} (starts : x ∈ startsFrom (.start s) p.stages) :
    ∃ before after, p.stages = before ++ x.1 :: after ∧
      x.2.Coherent s (before.map Stage.name) ∧ x.1.Supplied x.2 := by
  obtain ⟨before, after, place, finds⟩ := finds_of_mem_startsFrom builtIn rfl .fresh starts
  exact ⟨before, after, place, finds.coherent, finds.supplied builtIn place⟩

/-- The relation of the blog finds its two model types registered and their resources in place. -/
theorem coherent_at_start_blog :
    ∃ s x, Schema.parse blogText = .ok s ∧ x ∈ startsFrom (.start s) blogPipeline.stages ∧
      x.1.name = "connection" ∧ x.2.artifacts.modelList.map Model.typeName = ["Blog", "Post"] ∧
      (∀ m ∈ x.2.artifacts.modelList, m.Stands x.2.document) ∧
      ∃ r m, r.field = "posts" ∧ Connection.Supplied x.2 r m := by
  have hstarts : ∃ x ∈ blogPipeline.starts blogText, x.1.name = "connection" ∧
      x.2.artifacts.modelList.map Model.typeName = ["Blog", "Post"] ∧
      (Connection.relations x.2.artifacts).toOption.map (List.map Relation.field) =
        some ["posts"] := by decide +kernel
  obtain ⟨x, hx, hname, hmodels, hrelations⟩ := hstarts
  obtain ⟨s, hparse, hx⟩ : ∃ s, Schema.parse blogText = .ok s ∧
      x ∈ startsFrom (.start s) blogPipeline.stages := by
    rw [starts] at hx
    split at hx
    · cases hx
    · rename_i s hs
      split at hx
      · cases hx
      · exact ⟨s, hs, hx⟩
  obtain ⟨_, _, _, coherent, supplied⟩ := coherent_at_start builtIn_blogPipeline s hx
  obtain ⟨rs, hrs, hfields⟩ := Option.map_eq_some_iff.mp hrelations
  obtain ⟨r, hr, hfield⟩ := List.mem_map.mp (hfields ▸ List.mem_cons_self :
    "posts" ∈ rs.map Relation.field)
  obtain ⟨m, hm⟩ := supplied.relations hname rs (toOption_eq_some_iff.mp hrs) r hr
  exact ⟨s, x, hparse, hx, hname, hmodels, coherent.standing, r, m, hfield, hm⟩

end Pipeline

end SchemaStack
