import SchemaStack.Proofs.Build.References
import SchemaStack.Proofs.Directive.Foundation
/-!
# References of the standard pipeline

The built-in stages name what they refer to by putting an ID together again, or read it off a
registered model type. Either way it is the API or a part of a model type, and of those the document
has all: nothing in it refers to what is not there. The parts of a model type refer to one another.
-/

namespace SchemaStack

namespace Wiring

/-- What the resources of a schema may refer to. -/
def Referable (s : Schema) (id : String) : Prop :=
  id = Api.apiId ∨ id = "AWS::Region" ∨ ∃ o ∈ s.modelTypes, ∃ part : Model.Part, id = part.id o.name

/-- The resources that stages contribute to the document of a schema with the given relations. -/
inductive Contributed (name : String) (config : BuildConfig) (s : Schema) (rs : List Relation) :
    String → Resource → Prop
  | api : Contributed name config s rs Api.apiId (Api.api name)
  | key : Contributed name config s rs Api.keyId (Api.key name)
  | schema : Contributed name config s rs Api.schemaId (Api.schema s)
  | part {o : ObjectType} (part : Model.Part) : o ∈ s.modelTypes →
      Contributed name config s rs (part.id o.name) (part.resource config o.name)
  | relation {r : Relation} : r ∈ rs →
      Contributed name config s rs (Connection.resolverId r)
        (Connection.resolverResource r (Model.ofType r.target))

/-- The properties by which resources are wired to one another. -/
def keys : List String := ["Policies", "ServiceRoleArn", "DynamoDBConfig", "DataSourceName"]

/-- A resource of the document: it is wired as it was contributed. -/
structure Stands (name : String) (config : BuildConfig) (s : Schema) (rs : List Relation)
    (id : String) (r : Resource) : Prop where
  references : ∀ x ∈ r.references, Referable s x
  origin : ∃ r', Contributed name config s rs id r' ∧ r.type = r'.type ∧
    ∀ key ∈ keys, r.property? key = r'.property? key

/-- A contribution that brings such resources and leaves the wiring alone. -/
structure Fits (name : String) (config : BuildConfig) (s : Schema) (rs : List Relation)
    (k : Contribution) : Prop where
  entries : ∀ e ∈ k.entries, Contributed name config s rs e.1 e.2
  values : ∀ a ∈ k.amendments, ∀ x ∈ a.value.references, Referable s x
  unwired : ∀ a ∈ k.amendments, a.property ∉ keys

section Stage

variable {name : String} {config : BuildConfig} {s : Schema} {rs : List Relation}

lemma references_relation (r : Relation) (m : Model) :
    (Connection.resolverResource r m).references = [Api.apiId, m.dataSource] := by
  rw [Connection.resolverResource]
  split <;> rfl

/-- What a part of a model type refers to. -/
def partReferences (type : String) : Model.Part → List String
  | .table => []
  | .role => [type ++ "Table", type ++ "Table"]
  | .dataSource => [Api.apiId, type ++ "IAMRole", "AWS::Region", type ++ "Table"]
  | .resolver _ => [Api.apiId, type ++ "DataSource"]

lemma references_part (config : BuildConfig) (type : String) (part : Model.Part) :
    (part.resource config type).references = partReferences type part := by
  cases part <;> rfl

lemma referable_part {o : ObjectType} (ho : o ∈ s.modelTypes) (part : Model.Part) :
    Referable s (part.id o.name) := Or.inr (Or.inr ⟨o, ho, part, rfl⟩)

/-- The parts of a model type refer to each other, to the API and to the region. -/
lemma referable_of_mem_partReferences {o : ObjectType} (ho : o ∈ s.modelTypes)
    {part : Model.Part} {x : String} (hx : x ∈ partReferences o.name part) : Referable s x := by
  have api : Referable s Api.apiId := Or.inl rfl
  have region : Referable s "AWS::Region" := Or.inr (Or.inl rfl)
  have table := referable_part ho .table
  have role := referable_part ho .role
  have dataSource := referable_part ho .dataSource
  cases part with
  | table => cases hx
  | role =>
    rcases List.mem_pair.mp hx with rfl | rfl <;> exact table
  | dataSource =>
    simp only [partReferences, List.mem_cons, List.not_mem_nil, or_false] at hx
    rcases hx with rfl | rfl | rfl | rfl
    · exact api
    · exact role
    · exact region
    · exact table
  | resolver op =>
    rcases List.mem_pair.mp hx with rfl | rfl
    · exact api
    · exact dataSource

lemma referable_of_contributed (resolved : Connection.Resolved s rs) {id : String} {r : Resource}
    (h : Contributed name config s rs id r) {x : String} (hx : x ∈ r.references) :
    Referable s x := by
  cases h with
  | api => cases hx
  | key => exact Or.inl (List.mem_singleton.mp hx)
  | schema => exact Or.inl (List.mem_singleton.mp hx)
  | part part ho =>
    rw [references_part] at hx
    exact referable_of_mem_partReferences ho hx
  | @relation r hr =>
    rw [references_relation] at hx
    obtain ⟨_, _, _, _, _, _, _, _, t, ht, htarget⟩ := resolved r hr
    rcases List.mem_pair.mp hx with rfl | rfl
    · exact Or.inl rfl
    · rw [← htarget]
      exact referable_part ht .dataSource

/-- A contribution that fits keeps the document wired. -/
lemma stands_apply (resolved : Connection.Resolved s rs) {d : Document} {k : Contribution}
    (fits : Fits name config s rs k)
    (before : ∀ e ∈ d.resources, Stands name config s rs e.1 e.2) :
    ∀ e ∈ (Context.apply d k).resources, Stands name config s rs e.1 e.2 := by
  intro e he
  obtain ⟨r, hr, revises⟩ := Context.exists_revised_of_mem_apply he
  have stands : Stands name config s rs e.1 r := by
    rcases hr with hr | hr
    · exact before _ hr
    · have hcontributed := fits.entries _ hr
      exact ⟨fun x hx => referable_of_contributed resolved hcontributed hx,
        r, hcontributed, rfl, fun _ _ => rfl⟩
  obtain ⟨r', hcontributed, htype, hwired⟩ := stands.origin
  refine ⟨fun x hx => ?_, r', hcontributed, revises.type.trans htype, fun key hkey => ?_⟩
  · rcases revises.references hx with hx | ⟨a, ha, hx⟩
    · exact stands.references x hx
    · exact fits.values a ha x hx
  · have huntouched : ∀ a ∈ k.amendments, a.property ≠ key := by
      rintro a ha rfl
      exact fits.unwired a ha hkey
    rw [revises.untouched key huntouched]
    exact hwired key hkey

/-! ## The contributions of the stages -/

lemma fits_api (name : String) (config : BuildConfig) (s : Schema) (rs : List Relation) :
    Fits name config s rs (Api.contribution name s) where
  entries := by
    intro e he
    simp only [Api.contribution, List.mem_cons, List.not_mem_nil, or_false] at he
    rcases he with rfl | rfl | rfl
    · exact .api
    · exact .key
    · exact .schema
  values := fun _ ha => absurd ha List.not_mem_nil
  unwired := fun _ ha => absurd ha List.not_mem_nil

lemma fits_model (name : String) (config : BuildConfig) (s : Schema) (rs : List Relation) :
    Fits name config s rs (Model.contribution config s) where
  entries := by
    intro e he
    obtain ⟨type, htype, he⟩ := List.mem_flatMap.mp he
    obtain ⟨o, ho, rfl⟩ := List.mem_map.mp htype
    rw [Model.entries_eq] at he
    obtain ⟨part, _, rfl⟩ := List.mem_map.mp he
    exact .part part ho
  values := by
    intro a ha x hx
    rw [Model.contribution, Model.extension] at ha
    split at ha
    · cases ha
    · obtain rfl := List.mem_singleton.mp ha
      cases hx
  unwired := by
    intro a ha
    rw [(Model.target_of_mem_extension ha).2]
    decide

lemma stands_model_built (resolved : Connection.Resolved s rs) :
    ∀ e ∈ (Model.built name config s).document.resources, Stands name config s rs e.1 e.2 := by
  have api := stands_apply resolved (fits_api name config s rs)
    (d := Document.empty) (fun e he => absurd he List.not_mem_nil)
  exact stands_apply resolved (fits_model name config s rs) api

/-- The indexes of a table refer to nothing that the document does not refer to. -/
def Sourced (d : Document) (t : Connection.TableIndexes) : Prop :=
  ∀ v ∈ t.attributes ++ t.indexes, v.references ⊆ d.references

lemma sourced_items {d : Document} {id key : String} {v : Json}
    (h : v ∈ ((d.property? id key).bind Json.array?).getD []) : v.references ⊆ d.references := by
  intro x hx
  cases hvalue : d.property? id key with
  | none =>
    rw [hvalue] at h
    cases h
  | some j =>
    rw [hvalue] at h
    cases j with
    | array items =>
      exact Document.mem_references_of_property? hvalue (Json.references_subset_of_mem h hx)
    | _ => cases h

lemma sourced_ofDocument (d : Document) (table : String) :
    Sourced d (Connection.TableIndexes.ofDocument d table) := by
  intro v hv
  rcases List.mem_append.mp hv with hv | hv <;> exact sourced_items hv

lemma references_indexDefinition (d : Document) (table index key : String) :
    (Connection.indexDefinition d table index key).references ⊆ d.references := by
  intro x hx
  have hthroughput : x ∈ ((d.property? table "ProvisionedThroughput").getD .null).references := by
    change x ∈ _ ++ [] at hx
    rwa [List.append_nil] at hx
  cases hvalue : d.property? table "ProvisionedThroughput" with
  | none =>
    rw [hvalue] at hthroughput
    cases hthroughput
  | some j =>
    rw [hvalue] at hthroughput
    exact Document.mem_references_of_property? hvalue hthroughput

lemma sourced_addIndex {d : Document} {a : Artifacts} {tables : Entries Connection.TableIndexes}
    (before : ∀ e ∈ tables, Sourced d e.2) (r : Relation) :
    ∀ e ∈ Connection.addIndex d a tables r, Sourced d e.2 := by
  intro e he
  rw [Connection.addIndex] at he
  split at he
  · rename_i index m _ _
    rcases Entries.mem_of_mem_insert he with he | rfl
    · exact before e he
    -- the table's own indexes, from the map or from the document, and one more
    · have own : Sourced d ((Entries.get? tables m.table).getD (.ofDocument d m.table)) := by
        cases htable : Entries.get? tables m.table with
        | none => exact sourced_ofDocument d m.table
        | some t => exact before _ (Entries.mem_of_get? htable)
      intro v hv
      simp only [List.mem_append, List.mem_singleton] at hv
      rcases hv with (hv | rfl) | (hv | rfl)
      · exact own v (List.mem_append_left _ hv)
      · exact List.nil_subset _
      · exact own v (List.mem_append_right _ hv)
      · exact references_indexDefinition d m.table index r.key
  · exact before e he

/-- By induction on the relations. What is kept of a table was in the document before. -/
lemma sourced_foldl_addIndex {d : Document} {a : Artifacts} (rs : List Relation)
    {tables : Entries Connection.TableIndexes} (before : ∀ e ∈ tables, Sourced d e.2) :
    ∀ e ∈ rs.foldl (Connection.addIndex d a) tables, Sourced d e.2 := by
  induction rs generalizing tables with
  | nil => exact before
  | cons r rs ih => exact ih (sourced_addIndex before r)

lemma references_of_mem_amendments {d : Document} {tables : Entries Connection.TableIndexes}
    (sourced : ∀ e ∈ tables, Sourced d e.2) {a : Amendment}
    (ha : a ∈ Connection.amendments tables) : a.value.references ⊆ d.references := by
  intro x hx
  obtain ⟨⟨table, t⟩, ht, ha⟩ := List.mem_flatMap.mp ha
  have hitems : ∀ vs : List Json, x ∈ (Json.array vs).references → ∃ v ∈ vs, x ∈ v.references := by
    intro vs hx
    rw [Json.references, Json.referencesOfItems_eq] at hx
    exact List.mem_flatMap.mp hx
  rcases List.mem_pair.mp ha with rfl | rfl
  · obtain ⟨v, hv, hx⟩ := hitems _ hx
    exact sourced _ ht v (List.mem_append_left _ hv) hx
  · obtain ⟨v, hv, hx⟩ := hitems _ hx
    exact sourced _ ht v (List.mem_append_right _ hv) hx

lemma property_of_mem_amendments {tables : Entries Connection.TableIndexes} {a : Amendment}
    (ha : a ∈ Connection.amendments tables) :
    a.property = "AttributeDefinitions" ∨ a.property = "GlobalSecondaryIndexes" := by
  obtain ⟨⟨table, t⟩, _, ha⟩ := List.mem_flatMap.mp ha
  rcases List.mem_pair.mp ha with rfl | rfl
  · exact Or.inl rfl
  · exact Or.inr rfl

lemma fits_connection (name : String) (config : BuildConfig)
    (resolved : Connection.Resolved s rs) :
    Fits name config s rs (Connection.contribution name config s rs) where
  entries := by
    intro e he
    rw [Connection.contribution, Connection.entries_registered resolved] at he
    obtain ⟨r, hr, rfl⟩ := List.mem_map.mp he
    exact .relation hr
  values := by
    intro a ha x hx
    have none_yet : ∀ e ∈ ([] : Entries Connection.TableIndexes),
        Sourced (Model.built name config s).document e.2 := fun e he => absurd he List.not_mem_nil
    have hdocument := references_of_mem_amendments (sourced_foldl_addIndex rs none_yet) ha hx
    obtain ⟨e, he, hx⟩ := List.mem_flatMap.mp hdocument
    exact (stands_model_built resolved e he).references x hx
  unwired := by
    intro a ha
    rcases property_of_mem_amendments ha with h | h <;> rw [h] <;> decide

lemma fits_auth (name : String) (config : BuildConfig) (s : Schema) (rs : List Relation)
    (pool : String) : Fits name config s rs (Auth.contribution pool s) where
  entries := fun _ he => absurd he List.not_mem_nil
  values := by
    intro a ha x hx
    rcases Auth.mem_amendments.mp ha with hapi | ⟨_, _, _, _, op, hop⟩
    · rcases Auth.mem_apiAmendments.mp hapi with rfl | rfl
      · cases hx
      · exact Or.inr (Or.inl (List.mem_singleton.mp hx))
    · rcases Auth.mem_guardsOfOperation.mp hop with rfl | ⟨_, _, rfl⟩ <;> cases hx
  unwired := by
    intro a ha
    have hunwired : ∀ key ∈ ["AuthenticationType", "UserPoolConfig", "RequestMappingTemplate",
        "ResponseMappingTemplate"], key ∉ keys := by decide
    refine hunwired a.property ?_
    rcases Auth.mem_amendments.mp ha with hapi | ⟨_, _, _, _, op, hop⟩
    · rcases Auth.mem_apiAmendments.mp hapi with rfl | rfl <;> simp
    · rcases Auth.mem_guardsOfOperation.mp hop with rfl | ⟨_, _, rfl⟩ <;> simp

lemma stands_connection_built (resolved : Connection.Resolved s rs) :
    ∀ e ∈ (Connection.built name config s rs).document.resources,
      Stands name config s rs e.1 e.2 :=
  stands_apply resolved (fits_connection name config resolved) (stands_model_built resolved)

lemma stands_auth_built (resolved : Connection.Resolved s rs) (pool : String) :
    ∀ e ∈ (Auth.built pool name config s rs).document.resources, Stands name config s rs e.1 e.2 :=
  stands_apply resolved (fits_auth name config s rs pool) (stands_connection_built resolved)

end Stage

/-! ## Documents -/

/-- How the resources of the model types of a schema refer to one another. -/
structure Wired (s : Schema) (d : Document) : Prop where
  role : ∀ id r, (id, r) ∈ d.resources → r.type = .role →
    ∃ o ∈ s.modelTypes, id = o.name ++ "IAMRole" ∧ (o.name ++ "Table", .table) ∈ d.outline ∧
      ∃ policies, r.property? "Policies" = some policies ∧
        policies.references = [o.name ++ "Table", o.name ++ "Table"]
  dataSource : ∀ id r, (id, r) ∈ d.resources → r.type = .dataSource →
    ∃ o ∈ s.modelTypes, id = o.name ++ "DataSource" ∧
      (o.name ++ "IAMRole", .role) ∈ d.outline ∧ (o.name ++ "Table", .table) ∈ d.outline ∧
      r.property? "ServiceRoleArn" = some (attributeOf (o.name ++ "IAMRole") "Arn") ∧
      r.property? "DynamoDBConfig" = some (.object
        [("AwsRegion", referenceTo "AWS::Region"), ("TableName", referenceTo (o.name ++ "Table"))])
  resolver : ∀ id r, (id, r) ∈ d.resources → r.type = .resolver →
    ∃ source, r.property? "DataSourceName" = some (attributeOf source "Name") ∧
      (source, .dataSource) ∈ d.outline

section Run

variable {name : String} {config : BuildConfig} {s : Schema} {rs : List Relation}

lemma part_mem_outline (name : String) (config : BuildConfig)
    (distinct : (s.objects.map ObjectType.name).Nodup) {o : ObjectType} (ho : o ∈ s.modelTypes)
    (part : Model.Part) :
    (part.id o.name, (part.resource config o.name).type) ∈
      (Model.built name config s).document.outline :=
  List.mem_map.mpr
    ⟨_, Entries.mem_of_get? (Model.get?_built_part name config distinct ho part), rfl⟩

/-- Whatever may be referred to is in the document of the model types. -/
lemma mem_ids_of_referable (name : String) (config : BuildConfig) {id : String}
    (h : Referable s id) : id ∈ (Model.built name config s).document.ids ∨ id = "AWS::Region" := by
  rcases h with rfl | rfl | ⟨o, ho, part, rfl⟩
  · refine Or.inl ?_
    rw [Model.ids_built]
    exact List.mem_append_left _ List.mem_cons_self
  · exact Or.inr rfl
  · exact Or.inl (Model.mem_ids_built_part name config ho part)

/-- A role, a data source or a resolver is wired like a part of a model type or like the resolver of
a relation. -/
lemma cases_of_stands {id : String} {r : Resource} (h : Stands name config s rs id r)
    (wired : r.type = .role ∨ r.type = .dataSource ∨ r.type = .resolver) :
    (∃ o ∈ s.modelTypes, ∃ part : Model.Part, id = part.id o.name ∧
        r.type = (part.resource config o.name).type ∧
        ∀ key ∈ keys, r.property? key = (part.resource config o.name).property? key) ∨
      ∃ rel ∈ rs, r.type = .resolver ∧ ∀ key ∈ keys,
        r.property? key =
          (Connection.resolverResource rel (Model.ofType rel.target)).property? key := by
  obtain ⟨r', hcontributed, htype, hkeys⟩ := h.origin
  cases hcontributed with
  | part part ho => exact Or.inl ⟨_, ho, part, rfl, htype, hkeys⟩
  | relation hr => exact Or.inr ⟨_, hr, htype.trans (Connection.type_resolverResource _ _), hkeys⟩
  -- the API has resources of other types
  | api => rcases wired with h | h | h <;> cases h.symm.trans htype
  | key => rcases wired with h | h | h <;> cases h.symm.trans htype
  | schema => rcases wired with h | h | h <;> cases h.symm.trans htype

lemma wired_of_stands (distinct : (s.objects.map ObjectType.name).Nodup)
    (resolved : Connection.Resolved s rs) {d : Document}
    (outline : (Model.built name config s).document.outline ⊆ d.outline)
    (stands : ∀ e ∈ d.resources, Stands name config s rs e.1 e.2) : Wired s d where
  role := by
    intro id r he htype
    rcases cases_of_stands (stands _ he) (Or.inl htype) with
      ⟨o, ho, part, rfl, hpart, hkeys⟩ | ⟨_, _, hresolver, _⟩
    · rw [htype] at hpart
      cases part with
      | role =>
        have htable := outline (part_mem_outline name config distinct ho .table)
        exact ⟨o, ho, rfl, htable, _, hkeys "Policies" (by decide), rfl⟩
      | table => cases hpart
      | dataSource => cases hpart
      | resolver op => cases hpart
    · cases htype.symm.trans hresolver
  dataSource := by
    intro id r he htype
    rcases cases_of_stands (stands _ he) (Or.inr (Or.inl htype)) with
      ⟨o, ho, part, rfl, hpart, hkeys⟩ | ⟨_, _, hresolver, _⟩
    · rw [htype] at hpart
      cases part with
      | dataSource =>
        have hrole := outline (part_mem_outline name config distinct ho .role)
        have htable := outline (part_mem_outline name config distinct ho .table)
        exact ⟨o, ho, rfl, hrole, htable, hkeys "ServiceRoleArn" (by decide),
          hkeys "DynamoDBConfig" (by decide)⟩
      | table => cases hpart
      | role => cases hpart
      | resolver op => cases hpart
    · cases htype.symm.trans hresolver
  resolver := by
    intro id r he htype
    rcases cases_of_stands (stands _ he) (Or.inr (Or.inr htype)) with
      ⟨o, ho, part, rfl, hpart, hkeys⟩ | ⟨rel, hrel, _, hkeys⟩
    · rw [htype] at hpart
      cases part with
      | resolver op =>
        have hsource := outline (part_mem_outline name config distinct ho .dataSource)
        exact ⟨_, hkeys "DataSourceName" (by decide), hsource⟩
      | table => cases hpart
      | role => cases hpart
      | dataSource => cases hpart
    · obtain ⟨_, _, _, _, _, _, _, _, t, ht, htarget⟩ := resolved rel hrel
      have hsource := hkeys "DataSourceName" (by decide)
      rw [Connection.source_resolverResource, ← htarget] at hsource
      exact ⟨_, hsource, outline (part_mem_outline name config distinct ht .dataSource)⟩

lemma closed_of_stands {d : Document}
    (outline : (Model.built name config s).document.outline ⊆ d.outline)
    (stands : ∀ e ∈ d.resources, Stands name config s rs e.1 e.2) : d.Closed := by
  have ids : (Model.built name config s).document.ids ⊆ d.ids := by
    rw [← Document.map_fst_outline, ← Document.map_fst_outline]
    exact List.map_subset _ outline
  intro id hid
  obtain ⟨e, he, hid⟩ := List.mem_flatMap.mp hid
  have hreferable := (stands e he).references id hid
  exact (mem_ids_of_referable name config hreferable).imp_left fun h => ids h

end Run

end Wiring

namespace Pipeline

/-- The document of the standard pipeline is that of the relations or that of authorization. -/
lemma built_of_compileSchema {c : BuildConfig} {p : Pipeline} (hp : standard c = .ok p) {s : Schema}
    (distinct : (s.objects.map ObjectType.name).Nodup) {d : Document}
    (h : p.compileSchema s = .ok d) :
    ∃ rs, Founded c.apiName c c.connections s rs ∧
      (d = (Connection.built c.apiName c s rs).document ∨
        ∃ pool, d = (Auth.built pool c.apiName c s rs).document) := by
  cases hpool : c.userPool with
  | none =>
    obtain ⟨_, rs, founded, hd⟩ := (compileSchema_eq_ok_iff_of_none hpool hp distinct).mp h
    exact ⟨rs, founded, Or.inl hd⟩
  | some pool =>
    obtain ⟨_, _, rs, founded, hd⟩ := (compileSchema_eq_ok_iff_of_some hpool hp distinct).mp h
    exact ⟨rs, founded, Or.inr ⟨pool, hd⟩⟩

/-- Nothing in a compiled document refers to what is not there, and the parts of its model types
refer to one another. -/
theorem closed_of_compile {c : BuildConfig} {p : Pipeline} (hp : standard c = .ok p)
    {text : String} {d : Document} (compiled : p.compile text = .ok d) :
    d.Closed ∧ ∃ s, Schema.parse text = .ok s ∧ Wiring.Wired s d := by
  rw [compile] at compiled
  cases hparse : Schema.parse text with
  | error e =>
    rw [hparse] at compiled
    cases compiled
  | ok s =>
    rw [hparse] at compiled
    have distinct := Schema.nodup_objects (Schema.check_of_parse hparse)
    obtain ⟨rs, founded, hd⟩ := built_of_compileSchema hp distinct compiled
    have resolved := founded.resolved distinct
    have outline : (Model.built c.apiName c s).document.outline ⊆ d.outline := by
      rcases hd with rfl | ⟨pool, rfl⟩
      · rw [Connection.outline_built _ _ resolved]
        exact List.subset_append_left _ _
      · rw [Auth.outline_built, Connection.outline_built _ _ resolved]
        exact List.subset_append_left _ _
    have stands : ∀ e ∈ d.resources, Wiring.Stands c.apiName c s rs e.1 e.2 := by
      rcases hd with rfl | ⟨pool, rfl⟩
      · exact Wiring.stands_connection_built resolved
      · exact Wiring.stands_auth_built resolved pool
    exact ⟨Wiring.closed_of_stands outline stands, s, rfl,
      Wiring.wired_of_stands distinct resolved outline stands⟩

def forumConfig : BuildConfig := { apiName := "forum", userPool := some "pool" }

def forumPipeline : Pipeline := ⟨standardStages forumConfig, rfl⟩

/-- Members have posts, which belong to their owners. -/
def forumText : String :=
  "type Member @model \x7b id: ID! posts: [Post] @connection \x7d " ++
    "type Post @model @auth(rules: [\x7ballow: owner\x7d]) \x7b id: ID! \x7d"

/-- What resources of the forum refer to, among them the parts of both types. -/
def forumReferences : List String :=
  ["GraphQLApi", "AWS::Region", "MemberTable", "MemberIAMRole", "MemberDataSource", "PostTable",
   "PostIAMRole", "PostDataSource"]

theorem closed_of_compile_forum :
    ∃ d, forumPipeline.compile forumText = .ok d ∧ d.Closed ∧
      (∃ s, Schema.parse forumText = .ok s ∧ Wiring.Wired s d) ∧
      forumReferences ⊆ d.references := by
  have hreferences : (forumPipeline.compile forumText).toOption.any fun d =>
      forumReferences.all d.references.contains := by decide +kernel
  cases hcompile : forumPipeline.compile forumText with
  | error e =>
    rw [hcompile] at hreferences
    cases hreferences
  | ok d =>
    rw [hcompile] at hreferences
    have hp : standard forumConfig = .ok forumPipeline := rfl
    obtain ⟨hclosed, hwired⟩ := closed_of_compile hp hcompile
    refine ⟨d, rfl, hclosed, hwired, fun id hid => ?_⟩
    exact List.contains_iff_mem.mp (List.all_eq_true.mp hreferences id hid)

end Pipeline

end SchemaStack
