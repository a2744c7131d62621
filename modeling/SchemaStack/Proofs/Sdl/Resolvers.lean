import SchemaStack.Proofs.Sdl.WellFormed
/-!
# The fields that resolvers serve

A resolver names the field that it serves and the data source that it reads, and the text of the
schema declares the fields. The two are put together by different parts of the build, which agree:
each field of a root type and each field with `@connection` has one resolver, there are no others,
and a resolver reads the data source of the type whose items its field returns.
-/

namespace SchemaStack

/-! ## Resolvers -/

namespace Resource

/-- The type and the field that a resolver names. -/
def served? (r : Resource) : Option (String × String) :=
  match (r.property? "TypeName").bind Json.string?, (r.property? "FieldName").bind Json.string? with
  | some type, some field => some (type, field)
  | _, _ => none

/-- What ties a resolver to the schema and to its data. -/
def tie (r : Resource) : ResourceType × Option (String × String) × Option Json :=
  (r.type, r.served?, r.property? "DataSourceName")

/-- The properties that a tie depends on. -/
def tieKeys : List String := ["TypeName", "FieldName", "DataSourceName"]

lemma tie_set {key : String} (free : key ∉ tieKeys) (r : Resource) (v : Json) :
    (r.set key v).tie = r.tie := by
  have kept : ∀ key' ∈ tieKeys, (r.set key v).property? key' = r.property? key' := by
    intro key' hkey'
    have hne : key ≠ key' := fun heq => free (heq ▸ hkey')
    rw [Context.property?_set, if_neg hne]
  have htype := kept "TypeName" (by decide)
  have hfield := kept "FieldName" (by decide)
  have hsource := kept "DataSourceName" (by decide)
  rw [tie, tie, served?, served?, htype, hfield, hsource]
  rfl

end Resource

namespace Document

def resolvers (d : Document) : List Resource :=
  (d.resources.map Prod.snd).filter fun r => r.type = .resolver

end Document

/-- The ties of resources, in order. -/
def tiesOf (es : Entries Resource) : List (ResourceType × Option (String × String) × Option Json) :=
  es.map fun e => e.2.tie

lemma tiesOf_append (es fs : Entries Resource) : tiesOf (es ++ fs) = tiesOf es ++ tiesOf fs :=
  List.map_append

/-- The resolvers of a document show in the ties of its resources. -/
lemma Document.map_resolvers (d : Document) :
    d.resolvers.map (fun r => (r.served?, r.property? "DataSourceName")) =
      ((tiesOf d.resources).filter fun t => t.1 = .resolver).map Prod.snd := by
  rw [resolvers, tiesOf, List.filter_map, List.filter_map, List.map_map, List.map_map]
  rfl

namespace Context

lemma tiesOf_amend {a : Amendment} (free : a.property ∉ Resource.tieKeys) (d : Document) :
    tiesOf (amend d a).resources = tiesOf d.resources := by
  change tiesOf (Entries.modify _ d.resources a.target) = tiesOf d.resources
  induction d.resources with
  | nil => rfl
  | cons e es ih =>
    by_cases h : e.1 = a.target
    · simp [Entries.modify, tiesOf, h, Resource.tie_set free]
    · simpa [Entries.modify, tiesOf, h] using ih

lemma tiesOf_foldl_amend {as : List Amendment} (free : ∀ a ∈ as, a.property ∉ Resource.tieKeys)
    (d : Document) : tiesOf (as.foldl amend d).resources = tiesOf d.resources := by
  induction as generalizing d with
  | nil => rfl
  | cons a as ih =>
    have htail := ih (fun b hb => free b (List.mem_cons_of_mem a hb)) (amend d a)
    exact htail.trans (tiesOf_amend (free a List.mem_cons_self) d)

/-- Contributions add ties and leave those that are there alone. -/
lemma tiesOf_apply {k : Contribution} (free : ∀ a ∈ k.amendments, a.property ∉ Resource.tieKeys)
    (d : Document) : tiesOf (apply d k).resources = tiesOf d.resources ++ tiesOf k.entries := by
  rw [apply, tiesOf_foldl_amend free]
  exact tiesOf_append _ _

end Context

/-! ## The ties of a compiled document -/

section Ties

variable (name : String) (config : BuildConfig) (s : Schema) {rs : List Relation}

lemma Model.tiesOf_built :
    tiesOf (built name config s).document.resources =
      tiesOf (Api.contribution name s).entries ++ tiesOf (contribution config s).entries := by
  refine Context.tiesOf_apply (fun a ha => ?_) _
  have hproperty : a.property = "Definition" := (target_of_mem_extension ha).2
  rw [hproperty]
  decide

lemma Connection.tiesOf_built (resolved : Resolved s rs) :
    tiesOf (built name config s rs).document.resources =
      tiesOf (Model.built name config s).document.resources ++
        tiesOf (rs.map fun r => (resolverId r, resolverResource r (Model.ofType r.target))) := by
  rw [← entries_registered resolved]
  refine Context.tiesOf_apply (fun a ha => ?_) _
  rcases Wiring.property_of_mem_amendments ha with h | h <;> rw [h] <;> decide

lemma Auth.tiesOf_built (pool : String) (rs : List Relation) :
    tiesOf (built pool name config s rs).document.resources =
      tiesOf (Connection.built name config s rs).document.resources := by
  refine (Context.tiesOf_apply (fun a ha => ?_) _).trans (List.append_nil _)
  rcases mem_amendments.mp ha with hapi | ⟨_, _, _, _, op, hop⟩
  · rcases mem_apiAmendments.mp hapi with rfl | rfl <;> simp [Resource.tieKeys]
  · rcases mem_guardsOfOperation.mp hop with rfl | ⟨_, _, rfl⟩ <;> simp [Resource.tieKeys]

end Ties

/-! ## What resolvers are tied to -/

namespace Sdl

/-- A field that is served, and the type whose items it returns. -/
structure Service where
  type : String
  field : String
  item : String

def Service.pair (v : Service) : String × String := (v.type, v.field)

def Service.ofRelation (r : Relation) : Service := ⟨r.parent, r.field, r.target⟩

def operations (s : Schema) : List Service :=
  s.modelTypes.flatMap fun o => Operation.all.map fun op => ⟨op.rootType, op.field o.name, o.name⟩

def relations (s : Schema) : List Service :=
  s.connectionFields.map fun x => ⟨x.1.name, x.2.name, x.2.type.base⟩

/-- The fields of a compiled schema that have resolvers. -/
def services (s : Schema) : List Service := operations s ++ relations s

def Service.tie (v : Service) : Option (String × String) × Option Json :=
  (some v.pair, some (attributeOf (Model.ofType v.item).dataSource "Name"))

lemma ties_api (name : String) (s : Schema) :
    (tiesOf (Api.contribution name s).entries).filter (fun t => t.1 = .resolver) = [] := rfl

lemma ties_models (config : BuildConfig) (s : Schema) :
    ((tiesOf (Model.contribution config s).entries).filter fun t => t.1 = .resolver).map Prod.snd =
      (operations s).map Service.tie := by
  change ((tiesOf ((s.modelTypes.map ObjectType.name).flatMap (Model.entries config))).filter
    _).map _ = _
  rw [tiesOf, List.map_flatMap, List.filter_flatMap, List.map_flatMap, List.flatMap_map, operations,
    List.map_flatMap]
  rfl

lemma ties_relations (rs : List Relation) :
    ((tiesOf (rs.map fun r => (Connection.resolverId r,
      Connection.resolverResource r (Model.ofType r.target)))).filter
        fun t => t.1 = .resolver).map Prod.snd =
      (rs.map Service.ofRelation).map Service.tie := by
  have htie : ∀ r : Relation, (Connection.resolverResource r (Model.ofType r.target)).tie =
      (.resolver, (Service.ofRelation r).tie) := by
    intro r
    rw [Connection.resolverResource]
    split <;> rfl
  rw [tiesOf, List.map_map, List.filter_map, List.map_map, List.map_map]
  have hall : rs.filter ((fun t : ResourceType × Option (String × String) × Option Json =>
      decide (t.1 = .resolver)) ∘ (fun e : String × Resource => e.2.tie) ∘ fun r =>
        (Connection.resolverId r, Connection.resolverResource r (Model.ofType r.target))) = rs := by
    refine List.filter_eq_self.mpr fun r _ => ?_
    simp [htie]
  rw [hall]
  refine List.map_congr_left fun r _ => ?_
  simp [htie]

lemma map_ofRelation {s : Schema} (distinct : (s.objects.map ObjectType.name).Nodup)
    {rs : List Relation} (h : Connection.relations (Model.registered s) = .ok rs) :
    rs.map Service.ofRelation = relations s := by
  refine List.forall₂_eq_eq_eq ▸ List.forall₂_map_left_iff.mpr (List.forall₂_map_right_iff.mpr ?_)
  refine (Connection.forall₂_of_relations h).flip.imp fun r x hresolve => ?_
  obtain ⟨hparent, hfield, ⟨t, ht, htarget⟩, _, _⟩ := Connection.joins_of_resolve hresolve
  have hbase : t.name = x.2.type.base := ((Api.types_registered distinct).mp ht).2
  rw [Service.ofRelation, hparent, hfield, htarget, hbase]

/-- Each field with `@connection` is one of a model type and leads to a model type. -/
def Connected (s : Schema) : Prop :=
  ∀ x ∈ s.connectionFields, x.1 ∈ s.modelTypes ∧ ∃ t ∈ s.modelTypes, t.name = x.2.type.base

lemma connected_of_relations {s : Schema} (distinct : (s.objects.map ObjectType.name).Nodup)
    {rs : List Relation} (h : Connection.relations (Model.registered s) = .ok rs) :
    Connected s := by
  rintro ⟨o, f⟩ hx
  obtain ⟨r, hr, joins⟩ := Connection.exists_relation h hx
  obtain ⟨m, hm⟩ := joins.owner
  obtain ⟨m', hm'⟩ := joins.model
  obtain ⟨⟨o', ho', hname⟩, _⟩ := Model.model?_registered.mp hm
  obtain ⟨htarget, _⟩ := Model.model?_registered.mp hm'
  have ho : o ∈ s.objects := (Schema.mem_connectionFields.mp hx).1
  have hsame : o' = o :=
    Schema.eq_of_name_eq distinct (Schema.mem_modelTypes.mp ho').1 ho hname
  exact ⟨hsame ▸ ho', htarget⟩

/-- The resolvers of a compiled document are those of its services, in order. -/
lemma resolvers_of_compileSchema {c : BuildConfig} {p : Pipeline} (hp : Pipeline.standard c = .ok p)
    {s : Schema} (distinct : (s.objects.map ObjectType.name).Nodup) {d : Document}
    (compiled : p.compileSchema s = .ok d) :
    Connected s ∧ d.resolvers.map (fun r => (r.served?, r.property? "DataSourceName")) =
      (services s).map Service.tie := by
  have handled := ((Pipeline.compileSchema_eq_ok_iff hp distinct).mp compiled).1
  obtain ⟨rs, founded, hd⟩ := Pipeline.built_of_compileSchema hp distinct compiled
  have resolved := founded.resolved distinct
  have hrelations : Connected s ∧ rs.map Service.ofRelation = relations s := by
    have hrs := founded.relations
    cases hconnections : c.connections with
    | true =>
      rw [hconnections] at hrs
      exact ⟨connected_of_relations distinct hrs, map_ofRelation distinct hrs⟩
    | false =>
      have hnone := Pipeline.connectionFields_eq_nil hconnections hp handled
      rw [hconnections] at hrs
      obtain rfl : rs = [] := hrs
      refine ⟨fun x hx => ?_, ?_⟩
      · rw [hnone] at hx
        cases hx
      · rw [relations, hnone]
        rfl
  refine ⟨hrelations.1, ?_⟩
  have hties : tiesOf d.resources = tiesOf (Api.contribution c.apiName s).entries ++
      tiesOf (Model.contribution c s).entries ++
        tiesOf (rs.map fun r => (Connection.resolverId r,
          Connection.resolverResource r (Model.ofType r.target))) := by
    rcases hd with rfl | ⟨pool, rfl⟩
    · rw [Connection.tiesOf_built _ _ _ resolved, Model.tiesOf_built]
    · rw [Auth.tiesOf_built, Connection.tiesOf_built _ _ _ resolved, Model.tiesOf_built]
  rw [Document.map_resolvers, hties, List.filter_append, List.filter_append, ties_api,
    List.nil_append, List.map_append, ties_models, ties_relations, hrelations.2, services,
    List.map_append]

/-! ## The services -/

/-- The root types are no types of the source. -/
lemma notMem_roots_of_mem_objects {s : Schema} (valid : s.Valid) {o : ObjectType}
    (ho : o ∈ s.objects) : o.name ∉ ["Query", "Mutation"] := by
  obtain ⟨d, hd, heq⟩ := List.mem_filterMap.mp ho
  have hname : d.name = o.name := by
    cases d with
    | object o' => exact congrArg ObjectType.name (Option.some.inj heq)
    | enum e => cases heq
  have hfree : o.name ∉ Schema.reservedTypes :=
    (valid.free _ (hname ▸ List.mem_map_of_mem hd)).1
  intro hroot
  have hsubset : ["Query", "Mutation"] ⊆ Schema.reservedTypes := by decide
  exact hfree (hsubset hroot)

lemma rootType_mem_roots (op : Operation) : op.rootType ∈ ["Query", "Mutation"] := by
  cases op <;> decide

lemma pairs_operations (s : Schema) :
    (operations s).map Service.pair =
      s.modelTypes.flatMap fun o => Operation.all.map fun op => (op.rootType, op.field o.name) := by
  rw [operations, List.map_flatMap]
  refine List.flatMap_congr fun o _ => ?_
  rw [List.map_map]
  rfl

lemma pairs_relations (s : Schema) :
    (relations s).map Service.pair = s.connectionFields.map fun x => (x.1.name, x.2.name) := by
  rw [relations, List.map_map]
  rfl

lemma mem_pairs_operations {s : Schema} {type field : String} :
    (type, field) ∈ (operations s).map Service.pair ↔
      ∃ o ∈ s.modelTypes, ∃ op : Operation, type = op.rootType ∧ field = op.field o.name := by
  have hall : ∀ op : Operation, op ∈ Operation.all := fun op => by cases op <;> decide
  rw [pairs_operations, List.mem_flatMap]
  refine exists_congr fun o => and_congr_right fun _ => ?_
  constructor
  · intro h
    obtain ⟨op, _, heq⟩ := List.mem_map.mp h
    obtain ⟨rfl, rfl⟩ := Prod.mk.inj heq
    exact ⟨op, rfl, rfl⟩
  · rintro ⟨op, rfl, rfl⟩
    exact List.mem_map.mpr ⟨op, hall op, rfl⟩

lemma mem_pairs_relations {s : Schema} {type field : String} :
    (type, field) ∈ (relations s).map Service.pair ↔
      ∃ x ∈ s.connectionFields, type = x.1.name ∧ field = x.2.name := by
  rw [pairs_relations, List.mem_map]
  refine exists_congr fun x => and_congr_right fun _ => ?_
  rw [Prod.mk.injEq]
  exact and_congr eq_comm eq_comm

lemma nodup_operations {s : Schema} (distinct : (s.objects.map ObjectType.name).Nodup) :
    ((operations s).map Service.pair).Nodup := by
  rw [pairs_operations, List.nodup_flatMap]
  constructor
  · intro o _
    refine List.Nodup.map (fun op op' h => ?_) (by decide : Operation.all.Nodup)
    exact (field_eq_field (Prod.mk.inj h).2).1
  · refine (List.pairwise_map.mp (Schema.nodup_modelTypes distinct)).imp ?_
    intro o o' hne pair hpair hpair'
    obtain ⟨op, _, rfl⟩ := List.mem_map.mp hpair
    obtain ⟨op', _, heq⟩ := List.mem_map.mp hpair'
    exact hne (field_eq_field (Prod.mk.inj heq).2).2.symm

lemma nodup_relations {s : Schema} (valid : s.Valid) :
    ((relations s).map Service.pair).Nodup := by
  have distinct := Schema.nodup_objects (Schema.check_eq_ok_iff.mpr valid)
  rw [pairs_relations, Schema.connectionFields, List.map_flatMap, List.nodup_flatMap]
  constructor
  · intro o ho
    have hfields : (o.fields.map Field.name).Nodup := valid.distinctFields o ho
    have hconnections :
        ((o.fields.filter fun f => (f.directive? "connection").isSome).map Field.name).Nodup :=
      (List.filter_sublist.map Field.name).nodup hfields
    rw [List.map_map]
    refine List.Nodup.of_map Prod.snd ?_
    rw [List.map_map]
    exact hconnections
  · refine (List.pairwise_map.mp distinct).imp ?_
    intro o o' hne pair hpair hpair'
    obtain ⟨x, hx, rfl⟩ := List.mem_map.mp hpair
    obtain ⟨x', hx', heq⟩ := List.mem_map.mp hpair'
    obtain ⟨f, _, rfl⟩ := List.mem_map.mp hx
    obtain ⟨f', _, rfl⟩ := List.mem_map.mp hx'
    exact hne (Prod.mk.inj heq).1.symm

/-- No field is served twice. -/
lemma nodup_services {s : Schema} (valid : s.Valid) : ((services s).map Service.pair).Nodup := by
  have distinct := Schema.nodup_objects (Schema.check_eq_ok_iff.mpr valid)
  rw [services, List.map_append, List.nodup_append]
  refine ⟨nodup_operations distinct, nodup_relations valid, ?_⟩
  rintro ⟨type, field⟩ hoperation _ hrelation rfl
  obtain ⟨_, _, op, htype, _⟩ := mem_pairs_operations.mp hoperation
  obtain ⟨x, hx, htype', _⟩ := mem_pairs_relations.mp hrelation
  have hroot : x.1.name ∈ ["Query", "Mutation"] := by
    rw [← htype', htype]
    exact rootType_mem_roots op
  exact notMem_roots_of_mem_objects valid (Schema.mem_connectionFields.mp hx).1 hroot

/-- The services of a root type, in the order of its declared fields. -/
lemma root_services {s : Schema} (valid : s.Valid) {root : String}
    (hroot : root ∈ ["Query", "Mutation"]) :
    (((services s).map Service.pair).filter fun x => x.1 = root).map Prod.snd =
      (rootMembers root s.modelTypes).map Member.name := by
  have hrelations : ((relations s).map Service.pair).filter (fun x => x.1 = root) = [] := by
    refine List.filter_eq_nil_iff.mpr ?_
    rintro ⟨type, field⟩ hpair
    obtain ⟨x, hx, rfl, rfl⟩ := mem_pairs_relations.mp hpair
    have hobject : x.1 ∈ s.objects := (Schema.mem_connectionFields.mp hx).1
    have hne : x.1.name ≠ root := by
      rintro rfl
      exact notMem_roots_of_mem_objects valid hobject hroot
    simpa using hne
  have hoperations : ∀ o : ObjectType, ((Operation.all.map fun op =>
      (op.rootType, op.field o.name)).filter fun x => x.1 = root).map Prod.snd =
        rootNames root o.name := by
    intro o
    rw [List.filter_map, List.map_map, rootNames]
    refine congrArg (List.map _) (List.filter_congr fun op _ => ?_)
    exact (beq_eq_decide op.rootType root).symm
  rw [services, List.map_append, List.filter_append, hrelations, List.append_nil,
    pairs_operations, List.filter_flatMap, List.map_flatMap, names_rootMembers]
  exact List.flatMap_congr fun o _ => hoperations o

/-! ## What the text declares for them -/

/-- The fields that declarations have for a type. -/
def membersOf (ds : List Declaration) (type : String) : List Member :=
  ds.flatMap fun
    | .type n ms => if n = type then ms else []
    | _ => []

lemma mem_membersOf {ds : List Declaration} {type : String} {ms : List Member}
    (h : .type type ms ∈ ds) {m : Member} (hm : m ∈ ms) : m ∈ membersOf ds type := by
  refine List.mem_flatMap.mpr ⟨_, h, ?_⟩
  change m ∈ if type = type then ms else []
  rw [if_pos rfl]
  exact hm

lemma membersOf_append (ds es : List Declaration) (type : String) :
    membersOf (ds ++ es) type = membersOf ds type ++ membersOf es type := List.flatMap_append

lemma membersOf_eq_nil {ds : List Declaration} {type : String}
    (h : ∀ d ∈ ds, d.name ≠ type) : membersOf ds type = [] := by
  refine List.flatMap_eq_nil_iff.mpr fun d hd => ?_
  have hne := h d hd
  cases d with
  | type n ms => exact if_neg hne
  | input n ss => rfl
  | enum n vs => rfl

/-- The generated root types are the only ones of their names. -/
lemma membersOf_root {s : Schema} (valid : s.Valid) {root : String}
    (hroot : root ∈ ["Query", "Mutation"]) :
    membersOf (compiled s) root = rootMembers root s.modelTypes := by
  have hreserved : root ∈ Schema.reservedTypes := by
    have hsubset : ["Query", "Mutation"] ⊆ Schema.reservedTypes := by decide
    exact hsubset hroot
  have hsource : membersOf (s.definitions.map ofDefinition) root = [] := by
    refine membersOf_eq_nil fun d hd heq => ?_
    have hname : root ∈ s.names := by
      rw [← names_ofDefinition, ← heq]
      exact List.mem_map_of_mem hd
    exact (valid.free root hname).1 hreserved
  have htypes : membersOf (s.modelTypes.flatMap (typeDeclarations (s.enums.map EnumType.name)))
      root = [] := by
    refine membersOf_eq_nil fun d hd heq => ?_
    obtain ⟨o, _, hd⟩ := List.mem_flatMap.mp hd
    have hname : root ∈ generatedNames o.name := by
      rw [← names_typeDeclarations (s.enums.map EnumType.name), ← heq]
      exact List.mem_map_of_mem hd
    exact notMem_generatedNames_of_reserved hreserved hname
  have hroots : membersOf (roots s.modelTypes) root = rootMembers root s.modelTypes := by
    rcases List.mem_pair.mp hroot with rfl | rfl <;> simp [membersOf, roots]
  rw [compiled, membersOf_append, hsource, List.nil_append, generated]
  split
  · rename_i hnone
    rw [List.isEmpty_iff.mp hnone]
    rfl
  · rw [membersOf_append, htypes, hroots, List.nil_append]

/-- A field of the root type for queries that lists the items of a type. -/
def IsListQuery (type field : String) : Prop :=
  type = "Query" ∧ ∃ t, field = Operation.list.field t

/-- Declarations have a field that returns an item or items of a type. A list query returns a page,
whose items count. -/
def Returns (ds : List Declaration) (type field item : String) : Prop :=
  ∃ m ∈ membersOf ds type, m.name = field ∧
    (¬ IsListQuery type field → m.type.base = item) ∧
    (IsListQuery type field → ⟨"items", [], .list (.named item)⟩ ∈ membersOf ds m.type.base)

lemma mem_rootMembers {os : List ObjectType} {o : ObjectType} (ho : o ∈ os) (op : Operation) :
    rootMember op o.name ∈ rootMembers op.rootType os := by
  refine List.mem_flatMap.mpr ⟨o, ho, List.mem_map_of_mem (List.mem_filter.mpr ⟨?_, ?_⟩)⟩
  · cases op <;> decide
  · exact beq_self_eq_true op.rootType

lemma returns_operation {s : Schema} (valid : s.Valid) {o : ObjectType} (ho : o ∈ s.modelTypes)
    (op : Operation) : Returns (compiled s) op.rootType (op.field o.name) o.name := by
  refine ⟨rootMember op o.name, ?_, rfl, fun hnot => ?_, fun hlist => ?_⟩
  · rw [membersOf_root valid (rootType_mem_roots op)]
    exact mem_rootMembers ho op
  · have hop : op ≠ .list := by
      rintro rfl
      exact hnot ⟨rfl, o.name, rfl⟩
    exact congrArg TypeRef.base (congrArg TypeRef.named (if_neg hop))
  · obtain ⟨_, t, hfield⟩ := hlist
    obtain ⟨rfl, _⟩ := field_eq_field hfield
    have hconnection : Declaration.type (connectionName o.name)
        [⟨"items", [], .list (.named o.name)⟩, ⟨"nextToken", [], .named "String"⟩] ∈
          generated s := by
      have hne : s.modelTypes.isEmpty = false := by
        rw [List.isEmpty_eq_false_iff]
        exact List.ne_nil_of_mem ho
      rw [generated, hne]
      exact List.mem_append_left _ (List.mem_flatMap.mpr ⟨o, ho, List.mem_cons_self⟩)
    exact mem_membersOf (List.mem_append_right _ hconnection) List.mem_cons_self

lemma returns_relation {s : Schema} (valid : s.Valid) {o : ObjectType} {f : Field}
    (hx : (o, f) ∈ s.connectionFields) :
    Returns (compiled s) o.name f.name f.type.base := by
  obtain ⟨ho, hf, _⟩ := Schema.mem_connectionFields.mp hx
  have hdeclared : ofDefinition (.object o) ∈ compiled s := by
    obtain ⟨d, hd, heq⟩ := List.mem_filterMap.mp ho
    cases d with
    | enum e => cases heq
    | object o' =>
      obtain rfl := Option.some.inj heq
      exact List.mem_append_left _ (List.mem_map_of_mem hd)
  have hmember : (⟨f.name, [], f.type⟩ : Member) ∈
      o.fields.map fun f => ⟨f.name, [], f.type⟩ := List.mem_map.mpr ⟨f, hf, rfl⟩
  refine ⟨_, mem_membersOf hdeclared hmember, rfl, fun _ => rfl, fun hlist => ?_⟩
  have hroot : o.name ∈ ["Query", "Mutation"] := by
    rw [hlist.1]
    decide
  exact absurd hroot (notMem_roots_of_mem_objects valid ho)

/-- What a service returns is of a model type. -/
lemma returns_service {s : Schema} (valid : s.Valid) (connected : Connected s) {v : Service}
    (hv : v ∈ services s) :
    ∃ o ∈ s.modelTypes, o.name = v.item ∧ Returns (compiled s) v.type v.field o.name := by
  rcases List.mem_append.mp hv with hv | hv
  · obtain ⟨o, ho, hv⟩ := List.mem_flatMap.mp hv
    obtain ⟨op, _, rfl⟩ := List.mem_map.mp hv
    exact ⟨o, ho, rfl, returns_operation valid ho op⟩
  · obtain ⟨⟨o, f⟩, hx, rfl⟩ := List.mem_map.mp hv
    obtain ⟨_, t, ht, htarget⟩ := connected _ hx
    refine ⟨t, ht, htarget, ?_⟩
    rw [htarget]
    exact returns_relation valid hx

end Sdl

namespace Pipeline

open Sdl

/-- The resolvers of a compiled document and the fields of its text correspond: no two resolvers
serve one field; those of a root type serve its fields, in order; the others serve the fields of
model types with `@connection`; and each reads the data source of what its field returns. -/
theorem resolvers_serve_fields {c : BuildConfig} {p : Pipeline} (hp : standard c = .ok p)
    {text : String} {d : Document} (compiled : p.compile text = .ok d) :
    ∃ s sdl ds, ∃ pairs : List (String × String), Schema.parse text = .ok s ∧
      d.property? Api.schemaId "Definition" = some (.string sdl) ∧ Sdl.read sdl = .ok ds ∧
      d.resolvers.map Resource.served? = pairs.map some ∧ pairs.Nodup ∧
      (∀ root ∈ ["Query", "Mutation"],
        (pairs.filter fun x => x.1 = root).map Prod.snd = (membersOf ds root).map Member.name) ∧
      (∀ type field, type ∉ ["Query", "Mutation"] → ((type, field) ∈ pairs ↔
        ∃ o ∈ s.modelTypes, ∃ f ∈ o.fields, (f.directive? "connection").isSome ∧
          type = o.name ∧ field = f.name)) ∧
      ∀ r ∈ d.resolvers, ∃ type field, r.served? = some (type, field) ∧
        ∃ o ∈ s.modelTypes, Returns ds type field o.name ∧
          r.property? "DataSourceName" =
            some (attributeOf (Model.ofType o.name).dataSource "Name") := by
  obtain ⟨s, hparse, hcompiled, hdefinition, hread⟩ := exists_compiled hp compiled
  have valid := (Schema.legible_of_parse hparse).2
  have distinct := Schema.nodup_objects (Schema.check_of_parse hparse)
  obtain ⟨connected, hresolvers⟩ := resolvers_of_compileSchema hp distinct hcompiled
  refine ⟨s, _, _, (services s).map Service.pair, hparse, hdefinition, hread, ?_,
    nodup_services valid, ?_, ?_, ?_⟩
  · have hserved := congrArg (List.map Prod.fst) hresolvers
    rw [List.map_map, List.map_map] at hserved
    rw [List.map_map]
    exact hserved
  · intro root hroot
    rw [root_services valid hroot, membersOf_root valid hroot]
  · intro type field hnot
    rw [services, List.map_append, List.mem_append, mem_pairs_operations, mem_pairs_relations]
    constructor
    · rintro (⟨_, _, op, rfl, _⟩ | ⟨⟨o, f⟩, hx, rfl, rfl⟩)
      · exact absurd (rootType_mem_roots op) hnot
      · obtain ⟨_, hf, hconnection⟩ := Schema.mem_connectionFields.mp hx
        exact ⟨o, (connected _ hx).1, f, hf, hconnection, rfl, rfl⟩
    · rintro ⟨o, ho, f, hf, hconnection, rfl, rfl⟩
      have hobject : o ∈ s.objects := (Schema.mem_modelTypes.mp ho).1
      exact Or.inr ⟨(o, f), Schema.mem_connectionFields.mpr ⟨hobject, hf, hconnection⟩, rfl, rfl⟩
  · intro r hr
    have hview : (r.served?, r.property? "DataSourceName") ∈ (services s).map Service.tie := by
      rw [← hresolvers]
      exact List.mem_map.mpr ⟨r, hr, rfl⟩
    obtain ⟨v, hv, heq⟩ := List.mem_map.mp hview
    obtain ⟨hserved, hsource⟩ := Prod.mk.inj heq
    obtain ⟨o, ho, hitem, hreturns⟩ := returns_service valid connected hv
    refine ⟨v.type, v.field, hserved.symm, o, ho, hreturns, ?_⟩
    rw [hitem]
    exact hsource.symm

/-- Members write posts, and each post has an author. -/
def authorText : String :=
  "type Member @model \x7b id: ID! posts: [Post] @connection \x7d " ++
    "type Post @model \x7b id: ID! author: Member @connection \x7d"

theorem resolvers_serve_fields_author :
    ∃ d, ∃ pairs : List (String × String), plainPipeline.compile authorText = .ok d ∧
      d.resolvers.map Resource.served? = pairs.map some ∧ pairs.Nodup ∧
      (pairs.filter fun x => x.1 = "Query").map Prod.snd =
        ["getMember", "listMembers", "getPost", "listPosts"] ∧
      ("Member", "posts") ∈ pairs ∧ ("Post", "author") ∈ pairs := by
  have hp : standard plainConfig = .ok plainPipeline := rfl
  have hserves : (plainPipeline.compile authorText).toOption.any fun d =>
      let pairs := d.resolvers.filterMap Resource.served?
      decide ((pairs.filter fun x => x.1 = "Query").map Prod.snd =
        ["getMember", "listMembers", "getPost", "listPosts"]) &&
      pairs.contains ("Member", "posts") && pairs.contains ("Post", "author") := by
    decide +kernel
  obtain ⟨d, hcompile, hserves⟩ := exists_of_any hserves
  obtain ⟨s, _, _, pairs, _, _, _, hserved, hnodup, _⟩ := resolvers_serve_fields hp hcompile
  have hpairs : d.resolvers.filterMap Resource.served? = pairs := by
    have hid := congrArg (List.filterMap id) hserved
    simpa [List.filterMap_map] using hid
  simp only [hpairs, Bool.and_eq_true, decide_eq_true_eq, List.contains_iff_mem] at hserves
  exact ⟨d, pairs, hcompile, hserved, hnodup, hserves.1.1, hserves.1.2, hserves.2⟩

end Pipeline

end SchemaStack
