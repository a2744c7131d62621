import SchemaStack.Proofs.Build.Atomicity
import SchemaStack.Proofs.Build.Demands
import SchemaStack.Proofs.Directive.ResourceList
import SchemaStack.Proofs.Directive.Indexing
/-!
# What stages leave to each other

A stage of the compiler looks up what earlier ones have registered and what they have put into the
document. What it can count on is one invariant of the build, from the API on: the registered types
and models are those of the schema, their resources are in the document, and the properties of
these resources have the form that is looked for. Each stage keeps it by what it contributes, and
what it amends is there.
-/

namespace SchemaStack

/-! ## What is registered -/

namespace Schema

/-- The object types by name. A name that comes twice has its first place and its last type. -/
def typeTable (s : Schema) : Entries ObjectType :=
  Entries.ofList (s.objects.map fun o => (o.name, o))

/-- The models of the types with `@model`, by name. -/
def modelTable (s : Schema) : Entries Model :=
  ((s.typeTable.map Prod.snd).filter fun o => (o.directive? "model").isSome).map fun o =>
    (o.name, Model.ofType o.name)

variable {s : Schema}

lemma types_registerTypes (s : Schema) : (Artifacts.registerTypes {} s).types = s.typeTable := by
  rw [typeTable, Entries.ofList, List.foldl_map]
  rfl

lemma keys_typeTable (s : Schema) :
    Entries.keys s.typeTable = (s.objects.map ObjectType.name).eraseDups := by
  rw [typeTable, Entries.keys_ofList, Entries.keys, List.map_map]
  rfl

/-- A type that is declared twice is registered once. -/
lemma nodup_keys_typeTable (s : Schema) : (Entries.keys s.typeTable).Nodup :=
  Entries.nodup_keys_ofList _

lemma name_of_mem_typeTable {e : String × ObjectType} (h : e ∈ s.typeTable) : e.2.name = e.1 := by
  obtain ⟨o, _, rfl⟩ := List.mem_map.mp (Entries.mem_of_mem_ofList h)
  rfl

lemma map_name_typeTable (s : Schema) :
    (s.typeTable.map Prod.snd).map ObjectType.name = Entries.keys s.typeTable := by
  rw [List.map_map]
  exact List.map_congr_left fun _ he => name_of_mem_typeTable he

lemma mem_modelTable_iff {x : String × Model} :
    x ∈ s.modelTable ↔ ∃ o, s.typeTable.get? x.1 = some o ∧ (o.directive? "model").isSome ∧
      x.2 = Model.ofType x.1 := by
  rw [modelTable, List.mem_map]
  constructor
  · rintro ⟨o, ho, rfl⟩
    obtain ⟨ho, hmodel⟩ := List.mem_filter.mp ho
    obtain ⟨e, he, rfl⟩ := List.mem_map.mp ho
    refine ⟨e.2, Entries.get?_of_mem (nodup_keys_typeTable s) ?_, hmodel, rfl⟩
    rw [name_of_mem_typeTable he]
    exact he
  · rintro ⟨o, ho, hmodel, hx⟩
    have he := Entries.mem_of_get? ho
    have hname : o.name = x.1 := name_of_mem_typeTable he
    refine ⟨o, List.mem_filter.mpr ⟨List.mem_map.mpr ⟨_, he, rfl⟩, hmodel⟩, ?_⟩
    rw [hname, ← hx]

/-- The models stand in the order of their types. -/
lemma keys_modelTable_sublist (s : Schema) :
    (Entries.keys s.modelTable).Sublist (Entries.keys s.typeTable) := by
  rw [← map_name_typeTable, Entries.keys, modelTable, List.map_map]
  exact List.filter_sublist.map ObjectType.name

lemma nodup_keys_modelTable (s : Schema) : (Entries.keys s.modelTable).Nodup :=
  (keys_modelTable_sublist s).nodup (nodup_keys_typeTable s)

end Schema

namespace Artifacts

/-- The resources of what is registered. -/
def outline (a : Artifacts) : List (String × ResourceType) :=
  Pipeline.apiResources ++ a.models.flatMap (fun x => Pipeline.modelResources x.1) ++
    a.connections.map fun id => (id, .resolver)

variable {a : Artifacts} {x : String × ResourceType}

lemma mem_outline_of_api (h : x ∈ Pipeline.apiResources) : x ∈ a.outline :=
  List.mem_append_left _ (List.mem_append_left _ h)

lemma mem_outline_of_model {name : String} {m : Model} (hm : a.model? name = some m)
    (h : x ∈ Pipeline.modelResources name) : x ∈ a.outline :=
  List.mem_append_left _ (List.mem_append_right _
    (List.mem_flatMap.mpr ⟨_, Entries.mem_of_get? hm, h⟩))

lemma mem_outline_of_connection {id : String} (h : id ∈ a.connections) :
    (id, .resolver) ∈ a.outline :=
  List.mem_append_right _ (List.mem_map.mpr ⟨id, h, rfl⟩)

end Artifacts

/-! ## What is looked for -/

namespace Demand

/-- The definition of the schema starts with its own text. -/
@[simps]
def definition (s : Schema) : Demand where
  type := .schema
  property := "Definition"
  form v := ∃ rest, v = some (.string (s.text ++ rest))

@[simps]
def attributes : Demand where
  type := .table
  property := "AttributeDefinitions"
  form v := ∃ items, v = some (.array items)

@[simps]
def throughput : Demand where
  type := .table
  property := "ProvisionedThroughput"
  form v := ∃ j, v = some j

@[simps]
def request : Demand where
  type := .resolver
  property := "RequestMappingTemplate"
  form v := ∃ text, v = some (.string text)

/-- Tables have no indexes but those that relations add. -/
@[simps]
def unindexed : Demand where
  type := .table
  property := "GlobalSecondaryIndexes"
  form v := v = none

end Demand

/-- What holds of the resources of a document once the named stages are merged. Relations are the
only stage that takes a demand away. -/
def Schema.demands (s : Schema) (merged : List String) : List Demand :=
  [.definition s, .attributes, .throughput, .request] ++
    if "connection" ∈ merged then [] else [.unindexed]

/-- With one more stage merged, nothing more is asked for. -/
lemma Schema.demands_subset (s : Schema) (merged : List String) (name : String) :
    s.demands (merged ++ [name]) ⊆ s.demands merged := by
  intro q hq
  simp only [demands, List.mem_append] at hq ⊢
  refine hq.imp_right fun hq => ?_
  split at hq
  · cases hq
  · rename_i h
    rwa [if_neg fun hmem => h (Or.inl hmem)]

lemma Schema.forall_demands_iff {s : Schema} {merged : List String} {P : Demand → Prop} :
    (∀ q ∈ s.demands merged, P q) ↔
      (P (.definition s) ∧ P .attributes ∧ P .throughput ∧ P .request) ∧
        ("connection" ∉ merged → P .unindexed) := by
  rw [demands, List.forall_mem_append]
  by_cases h : "connection" ∈ merged <;> simp [h]

/-! ## The invariant -/

/-- What a stage after the API can count on. -/
structure Context.Ready (s : Schema) (merged : List String) (c : Context) : Prop where
  reached : ∃ h, c.Reached h
  types : c.artifacts.types = s.typeTable
  models : c.artifacts.models = if "model" ∈ merged then s.modelTable else []
  outline : c.artifacts.outline ⊆ c.document.outline
  demands : ∀ q ∈ s.demands merged, q.Met c.document

/-- What a stage registers and contributes for a build to be ready with it. -/
structure Context.Prepares (s : Schema) (merged : List String) (c : Context)
    (r : Artifacts × Contribution) : Prop where
  types : r.1.types = s.typeTable
  models : r.1.models = if "model" ∈ merged then s.modelTable else []
  outline : r.1.outline ⊆ c.document.outline ++ outlineOf r.2.entries
  demands : ∀ q ∈ s.demands merged, q.Fits r.2
  reaching : ∀ a ∈ r.2.amendments, a.target ∈ c.document.ids

/-- A stage refuses a build only for a fault of the schema, and prepares it otherwise. -/
def Stage.Continues (s : Schema) (merged : List String) (c : Context) (st : Stage) : Prop :=
  Outcome (fun e => ∃ x, e = .schema x) (c.Prepares s (merged ++ [st.name])) (st.contribute c)

namespace Pipeline

variable {s : Schema} {merged : List String} {c c' : Context} {st : Stage}

lemma ready_of_step (continues : st.Continues s merged c) (reached : ∃ h, c.Reached h)
    (met : ∀ q ∈ s.demands (merged ++ [st.name]), q.Met c.document) (h : step c st = .ok c') :
    c'.Ready s (merged ++ [st.name]) := by
  obtain ⟨past, reached⟩ := reached
  obtain ⟨k, reached'⟩ := reached.step h
  obtain ⟨a, k, hk, _, rfl⟩ := exists_of_step h
  have prepares := Outcome.ok continues hk
  exact
    { reached := ⟨_, reached'⟩
      types := prepares.types
      models := prepares.models
      outline := (Context.outline_apply c.document k).symm ▸ prepares.outline
      demands := fun q hq => (met q hq).apply (prepares.demands q hq) }

/-- What a stage amends is there. -/
lemma step_ne_amendment (continues : st.Continues s merged c) (stage target : String) :
    step c st ≠ .error (.amendment stage target) := by
  intro h
  rcases bind_eq_error h with hk | ⟨⟨a, k⟩, hk, hm⟩
  · obtain ⟨x, hx⟩ := Outcome.error continues hk
    cases hx
  · rcases Context.merge_eq_error hm with hentries | ⟨_, hamendments⟩
    · obtain ⟨_, _, _, _, _, _, _, he⟩ := Context.checkEntries_eq_error hentries
      cases he
    · obtain ⟨before, b, after, hsplit, _, hmissing, _⟩ :=
        Context.checkAmendments_eq_error hamendments
      exact hmissing ((Outcome.ok continues hk).reaching b (by simp [hsplit]))

end Pipeline

namespace Context.Ready

variable {s : Schema} {merged : List String} {c : Context}

/-- What is registered is in the document, with its type. -/
lemma holds (ready : c.Ready s merged) {id : String} {type : ResourceType}
    (h : (id, type) ∈ c.artifacts.outline) : c.document.Holds id type := by
  obtain ⟨_, reached⟩ := ready.reached
  exact Document.holds_of_mem_outline reached.owned.distinct (ready.outline h)

lemma mem_ids (ready : c.Ready s merged) {id : String} {type : ResourceType}
    (h : (id, type) ∈ c.artifacts.outline) : id ∈ c.document.ids := (ready.holds h).mem_ids

lemma definition (ready : c.Ready s merged) :
    ∃ rest, c.document.property? Api.schemaId "Definition" = some (.string (s.text ++ rest)) := by
  obtain ⟨⟨definition, _⟩, _⟩ := Schema.forall_demands_iff.mp ready.demands
  have hschema : (Api.schemaId, .schema) ∈ c.artifacts.outline :=
    Artifacts.mem_outline_of_api (by decide)
  exact definition.property? (ready.holds hschema)

/-- A registered model belongs to a type that is marked as one. -/
lemma of_model? (ready : c.Ready s merged) {name : String} {m : Model}
    (h : c.artifacts.model? name = some m) :
    m = Model.ofType name ∧
      ∃ o, s.typeTable.get? name = some o ∧ (o.directive? "model").isSome := by
  have hmem := Entries.mem_of_get? h
  rw [ready.models] at hmem
  split at hmem
  · obtain ⟨o, ho, hmodel, hm⟩ := Schema.mem_modelTable_iff.mp hmem
    exact ⟨hm, o, ho, hmodel⟩
  · cases hmem

lemma model_holds (ready : c.Ready s merged) {name : String} {m : Model}
    (h : c.artifacts.model? name = some m) {x : String × ResourceType}
    (hx : x ∈ Pipeline.modelResources name) : c.document.Holds x.1 x.2 :=
  ready.holds (Artifacts.mem_outline_of_model h hx)

end Context.Ready

/-! ## The stages -/

section Stages

variable {s : Schema} {merged : List String} {c : Context}

namespace Api

lemma fits_contribution (name : String) :
    ∀ q ∈ s.demands merged, q.Fits (contribution name s) := by
  have api : ∀ q ∈ s.demands merged, q.MetBy (api name) :=
    Schema.forall_demands_iff.mpr ⟨⟨nofun, nofun, nofun, nofun⟩, fun _ => nofun⟩
  have key : ∀ q ∈ s.demands merged, q.MetBy (key name) :=
    Schema.forall_demands_iff.mpr ⟨⟨nofun, nofun, nofun, nofun⟩, fun _ => nofun⟩
  have schema : ∀ q ∈ s.demands merged, q.MetBy (schema s) := by
    refine Schema.forall_demands_iff.mpr ⟨⟨fun _ => ⟨"", ?_⟩, nofun, nofun, nofun⟩, fun _ => nofun⟩
    rw [String.append_empty]
    rfl
  intro q hq
  refine ⟨?_, List.forall_mem_nil _⟩
  simpa [contribution] using ⟨api q hq, key q hq, schema q hq⟩

lemma continues (name : String) (s : Schema) : (stage name).Continues s [] (.start s) where
  types := Schema.types_registerTypes s
  models := rfl
  outline := List.Subset.refl _
  demands := fits_contribution name
  reaching := List.forall_mem_nil _

end Api

namespace Model

lemma metBy_resource (config : BuildConfig) (type : String) (part : Model.Part) :
    ∀ q ∈ s.demands merged, q.MetBy (part.resource config type) := by
  refine Schema.forall_demands_iff.mpr ?_
  cases part with
  | table => exact ⟨⟨nofun, fun _ => ⟨_, rfl⟩, fun _ => ⟨_, rfl⟩, nofun⟩, fun _ _ => rfl⟩
  | role => exact ⟨⟨nofun, nofun, nofun, nofun⟩, fun _ => nofun⟩
  | dataSource => exact ⟨⟨nofun, nofun, nofun, nofun⟩, fun _ => nofun⟩
  | resolver op => exact ⟨⟨nofun, nofun, nofun, fun _ => ⟨_, rfl⟩⟩, fun _ => nofun⟩

lemma keptBy_definition (rest : String) :
    ∀ q ∈ s.demands merged, q.KeptBy ⟨Api.schemaId, "Definition", .string (s.text ++ rest)⟩ := by
  refine Schema.forall_demands_iff.mpr ?_
  simp [Demand.KeptBy]

/-- The schema is extended at its end. -/
lemma outcome_schemaAmendments (ready : c.Ready s merged) (os : List ObjectType) :
    Outcome (fun e => ∃ x, e = .schema x)
      (∀ a ∈ ·, ∃ rest, a = ⟨Api.schemaId, "Definition", .string (s.text ++ rest)⟩)
      (schemaAmendments c os) := by
  obtain ⟨rest, hbase⟩ := ready.definition
  rw [schemaAmendments, hbase]
  split
  · exact List.forall_mem_nil _
  · refine List.forall_mem_singleton.mpr
      ⟨rest ++ ("\n\n" ++ schemaText c.artifacts.enums os), ?_⟩
    rw [Sdl.blocks_pair, String.append_assoc, String.append_assoc]

lemma map_types (ready : c.Ready s merged) :
    (types c.artifacts).map (fun o => (o.name, ofType o.name)) = s.modelTable := by
  rw [types, Artifacts.objectTypes, ready.types]
  rfl

/-- The model stage registers the model table, if it has not run before. -/
lemma foldl_registerModel_types (ready : c.Ready s merged) (first : "model" ∉ merged) :
    (types c.artifacts).foldl (fun a o => a.registerModel (ofType o.name))
      c.artifacts = { c.artifacts with models := s.modelTable } := by
  have hmodels : c.artifacts.models = [] := by rw [ready.models, if_neg first]
  have hnames : (types c.artifacts).map ObjectType.name = Entries.keys s.modelTable := by
    rw [← map_types ready, Entries.keys, List.map_map]
    rfl
  have distinct : (Entries.keys ([] : Entries Model) ++
      (types c.artifacts).map ObjectType.name).Nodup := by
    rw [hnames]
    exact Schema.nodup_keys_modelTable s
  rw [foldl_registerModel, hmodels, Entries.foldl_insert_of_nodup _ _ _ _ distinct,
    map_types ready]
  rfl

lemma outlineOf_entries (config : BuildConfig) (ready : c.Ready s merged) :
    outlineOf ((types c.artifacts).flatMap fun o => entries config o.name) =
      s.modelTable.flatMap fun x => Pipeline.modelResources x.1 := by
  rw [← map_types ready, outlineOf, List.map_flatMap, List.flatMap_map]
  rfl

lemma continues (config : BuildConfig) (ready : c.Ready s merged) (first : "model" ∉ merged) :
    (stage config).Continues s merged c := by
  change Outcome _ _ (contribute config c)
  rw [contribute]
  split
  · exact ⟨_, rfl⟩
  refine outcome_bind (outcome_schemaAmendments ready _) fun as has => ?_
  rw [foldl_registerModel_types ready first]
  refine
    { types := ready.types
      models := (if_pos (List.mem_append_right _ List.mem_cons_self)).symm
      outline := ?outline
      demands := fun q hq => ⟨?entries, ?amendments⟩
      reaching := ?reaching }
  case outline =>
    intro x hx
    rw [outlineOf_entries config ready]
    rcases List.mem_append.mp hx with hx | hconnection
    · rcases List.mem_append.mp hx with hapi | hmodel
      · exact List.mem_append_left _ (ready.outline (Artifacts.mem_outline_of_api hapi))
      · exact List.mem_append_right _ hmodel
    · exact List.mem_append_left _ (ready.outline (List.mem_append_right _ hconnection))
  case entries =>
    intro e he
    obtain ⟨o, _, he⟩ := List.mem_flatMap.mp he
    rw [entries_eq] at he
    obtain ⟨part, _, rfl⟩ := List.mem_map.mp he
    exact metBy_resource config o.name part q hq
  case amendments =>
    intro a ha
    obtain ⟨rest, rfl⟩ := has a ha
    exact keptBy_definition rest q hq
  case reaching =>
    intro a ha
    obtain ⟨rest, rfl⟩ := has a ha
    exact ready.mem_ids (Artifacts.mem_outline_of_api (by decide : (Api.schemaId, .schema) ∈ _))

end Model

namespace Connection

lemma metBy_resolverResource (r : Relation) (m : Model) :
    ∀ q ∈ s.demands merged, q.MetBy (resolverResource r m) := by
  have request : ∃ text, (resolverResource r m).property? "RequestMappingTemplate" =
      some (.string text) := by
    rw [resolverResource]
    split <;> exact ⟨_, rfl⟩
  refine Schema.forall_demands_iff.mpr ?_
  simpa [Demand.MetBy, type_resolverResource] using request

lemma outlineOf_entries (a : Artifacts) (rs : List Relation) :
    outlineOf (entries a rs) = (Entries.keys (entries a rs)).map fun id => (id, .resolver) := by
  rw [outlineOf, Entries.keys, List.map_map]
  refine List.map_congr_left fun e he => ?_
  obtain ⟨r, _, m, _, rfl⟩ := of_mem_entries he
  exact congrArg _ (type_resolverResource r m)

lemma keptBy_amendments {tables : Entries TableIndexes} {a : Amendment}
    (ha : a ∈ amendments tables) : ∀ q ∈ s.demands (merged ++ [stage.name]), q.KeptBy a := by
  refine Schema.forall_demands_iff.mpr ?_
  obtain ⟨table, t, _, rfl | rfl⟩ := mem_amendments_iff.mp ha <;> simp [Demand.KeptBy, stage]

/-- The tables that get indexes are there. -/
lemma target_mem_ids (ready : c.Ready s merged) {rs : List Relation} {a : Amendment}
    (ha : a ∈ amendments (rs.foldl (addIndex c.document c.artifacts) [])) :
    a.target ∈ c.document.ids := by
  have htable : a.target ∈ Entries.keys (rs.foldl (addIndex c.document c.artifacts) []) := by
    obtain ⟨table, t, ht, rfl | rfl⟩ := mem_amendments_iff.mp ha <;>
      exact List.mem_map.mpr ⟨_, ht, rfl⟩
  rcases mem_keys_foldl_addIndex rs htable with h | ⟨name, m, hm, htarget⟩
  · cases h
  · obtain ⟨rfl, _⟩ := ready.of_model? hm
    rw [htarget]
    exact ready.mem_ids (Artifacts.mem_outline_of_model hm List.mem_cons_self)

lemma continues (ready : c.Ready s merged) : stage.Continues s merged c := by
  change Outcome _ _ (contribute c)
  rw [contribute]
  split
  · exact ⟨_, rfl⟩
  dsimp only
  rw [foldl_registerConnection]
  refine
    { types := ready.types
      models := by simp [ready.models, stage]
      outline := ?outline
      demands := fun q hq => ⟨?entries, fun a ha => keptBy_amendments ha q hq⟩
      reaching := fun a ha => target_mem_ids ready ha }
  case outline =>
    intro x hx
    rw [outlineOf_entries]
    rcases List.mem_append.mp hx with hx | hx
    · exact List.mem_append_left _ (ready.outline (List.mem_append_left _ hx))
    · rw [List.map_append] at hx
      rcases List.mem_append.mp hx with hx | hx
      · exact List.mem_append_left _ (ready.outline (List.mem_append_right _ hx))
      · exact List.mem_append_right _ hx
  case entries =>
    intro e he
    obtain ⟨r, _, m, _, rfl⟩ := of_mem_entries he
    exact metBy_resolverResource r m q hq

end Connection

namespace Auth

lemma keptBy_apiAmendments {pool : String} {a : Amendment}
    (ha : a ∈ apiAmendments pool) : ∀ q ∈ s.demands merged, q.KeptBy a := by
  refine Schema.forall_demands_iff.mpr ?_
  rcases mem_apiAmendments.mp ha with rfl | rfl <;> simp [Demand.KeptBy]

lemma keptBy_guardsOf {o : ObjectType} {a : Amendment} (ha : a ∈ guardsOf c o) :
    ∀ q ∈ s.demands merged, q.KeptBy a := by
  refine Schema.forall_demands_iff.mpr ?_
  obtain ⟨_, text, h | h⟩ := of_mem_guardsOf ha <;> rw [h] <;> simp [Demand.KeptBy]

lemma continues (pool : String) (ready : c.Ready s merged) :
    (stage pool).Continues s merged c := by
  change Outcome _ _ (contribute pool c)
  rw [contribute]
  split
  · exact ⟨_, rfl⟩
  rename_i as has
  obtain ⟨_, rfl⟩ := guards_eq_ok_iff.mp has
  refine
    { types := ready.types
      models := by simp [ready.models, stage]
      outline := fun x hx => List.mem_append_left _ (ready.outline hx)
      demands := fun q hq => ⟨List.forall_mem_nil _, ?amendments⟩
      reaching := ?reaching }
  case amendments =>
    intro a ha
    rcases List.mem_append.mp ha with ha | ha
    · exact keptBy_apiAmendments ha q hq
    · obtain ⟨o, _, ha⟩ := List.mem_flatMap.mp ha
      exact keptBy_guardsOf ha q hq
  case reaching =>
    intro a ha
    rcases List.mem_append.mp ha with ha | ha
    · rw [target_of_mem_apiAmendments ha]
      exact ready.mem_ids (Artifacts.mem_outline_of_api (by decide : (Api.apiId, .api) ∈ _))
    · obtain ⟨o, _, ha⟩ := List.mem_flatMap.mp ha
      exact (of_mem_guardsOf ha).1

end Auth

end Stages

end SchemaStack
