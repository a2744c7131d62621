import SchemaStack.Proofs.Sdl.Compiled
/-!
# Indexes of tables

A list field with `@connection` is read by an index on the table of its items. The relations are
resolved type by type and their indexes collected table by table, so each table ends up with the
indexes of the fields that list its items, in declaration order, and with an attribute for the key
of each. No two indexes of a table have one name, because names that are taken are refused while
the relations are resolved.
-/

namespace SchemaStack

/-- The name that a field gives its relation, if it gives one. -/
def Field.connectionName? (f : Field) : Option String :=
  ((f.directive? "connection").bind fun d => d.arguments.get? "name").bind Literal.text?

/-- The list fields with `@connection` whose items are of a type, each with the type that declares
it, in declaration order. -/
def Schema.listFields (s : Schema) (type : String) : List (ObjectType × Field) :=
  s.connectionFields.filter fun x => x.2.type.isList && x.2.type.base == type

namespace Indexing

/-- An index is named after its relation, or after its type and field where that has no name. -/
def indexName (x : ObjectType × Field) : String :=
  "gsi-" ++ x.2.connectionName?.getD (x.1.name ++ Text.upperFirst x.2.name)

/-- The attribute of an item that says which list it is in. -/
def keyName (x : ObjectType × Field) : String :=
  Text.lowerFirst x.1.name ++ Text.upperFirst x.2.name ++ "Id"

/-- An attribute that holds a string. -/
def stringAttribute (name : String) : Json :=
  .object [("AttributeName", .string name), ("AttributeType", .string "S")]

/-- The index that a list field is read by. -/
def index (throughput : Json) (x : ObjectType × Field) : Json :=
  .object
    [("IndexName", .string (indexName x)),
     ("KeySchema", .array
       [.object [("AttributeName", .string (keyName x)), ("KeyType", .string "HASH")]]),
     ("Projection", .object [("ProjectionType", .string "ALL")]),
     ("ProvisionedThroughput", throughput)]

/-- The table of a model type has the indexes of the fields that list its items, and no others. -/
structure Indexed (s : Schema) (d : Document) (type : String) : Prop where
  table : (type ++ "Table", .table) ∈ d.outline
  indexes : ∃ throughput,
    d.property? (type ++ "Table") "ProvisionedThroughput" = some throughput ∧
      d.property? (type ++ "Table") "GlobalSecondaryIndexes" =
        if (s.listFields type).isEmpty then none
        else some (.array ((s.listFields type).map (index throughput)))
  attributes : d.property? (type ++ "Table") "AttributeDefinitions" =
    some (.array (stringAttribute "id" ::
      (s.listFields type).map fun x => stringAttribute (keyName x)))
  distinct : ((s.listFields type).map indexName).Nodup

end Indexing

namespace Connection

open Indexing

variable {s : Schema}

/-! ## Relations of list fields -/

/-- The relation of a list field. -/
def listRelation (x : ObjectType × Field) : Relation :=
  ⟨x.1.name, x.2.name, x.2.type.base, keyName x, some (indexName x)⟩

lemma name_of_name? {o : ObjectType} {f : Field} {n : Option String} (h : name? o f = .ok n) :
    n = f.connectionName? := by
  rw [name?] at h
  rw [Field.connectionName?]
  split at h
  · rename_i hnone
    rw [hnone]
    exact (Except.ok.inj h).symm
  · rename_i d hd
    rw [hd]
    split at h
    · cases h
    · split at h
      · rename_i hname
        change n = (d.arguments.get? "name").bind Literal.text?
        rw [hname]
        exact (Except.ok.inj h).symm
      · rename_i v hname
        change n = (d.arguments.get? "name").bind Literal.text?
        rw [hname]
        split at h
        · cases h
        · rename_i t ht
          exact (Except.ok.inj h).symm.trans ht.symm

lemma target_of_resolve {a : Artifacts} {o : ObjectType} {f : Field} {r : Relation}
    (h : resolve a o f = .ok r) :
    ∃ target name, a.types.get? f.type.base = some target ∧ name? o f = .ok name ∧
      if f.type.isList then r = resolveList.relation o target f name else r.index = none := by
  rw [resolve] at h
  split at h
  · cases h
  · split at h
    · rename_i target _ htarget
      obtain ⟨name, hname, h⟩ := bind_eq_ok h
      refine ⟨target, name, htarget, hname, ?_⟩
      by_cases hlist : f.type.isList = true
      · rw [if_pos hlist] at h ⊢
        exact eq_relation_of_resolveList h
      · rw [if_neg hlist] at h ⊢
        obtain ⟨key, rfl⟩ := exists_key_of_resolveSingle h
        rfl
    · cases h

/-- A list field has the relation of its names, and any other field is read by no index. -/
lemma relation_of_resolve (distinct : (s.objects.map ObjectType.name).Nodup) {o : ObjectType}
    {f : Field} {r : Relation} (h : resolve (Model.registered s) o f = .ok r) :
    if f.type.isList then r = listRelation (o, f) else r.index = none := by
  obtain ⟨target, name, htarget, hname, hr⟩ := target_of_resolve h
  split
  · rename_i hlist
    rw [if_pos hlist] at hr
    have hbase : target.name = f.type.base := ((Api.types_registered distinct).mp htarget).2
    rw [hr, resolveList.relation, hbase, name_of_name? hname]
    rfl
  · rename_i hsingle
    rwa [if_neg hsingle] at hr

/-- The relations that are read by an index of the table of a type. -/
def indexesOn (type : String) (rs : List Relation) : List Relation :=
  rs.filter fun r => r.index.isSome && r.target == type

lemma indexesOn_cons (type : String) (r : Relation) (rs : List Relation) :
    indexesOn type (r :: rs) = indexesOn type [r] ++ indexesOn type rs :=
  List.filter_append (p := fun r : Relation => r.index.isSome && r.target == type) [r] rs

lemma indexesOn_of_forall₂ (distinct : (s.objects.map ObjectType.name).Nodup) (type : String)
    {fs : List (ObjectType × Field)} {rs : List Relation}
    (h : List.Forall₂ (fun x r => resolve (Model.registered s) x.1 x.2 = .ok r) fs rs) :
    indexesOn type rs =
      (fs.filter fun x => x.2.type.isList && x.2.type.base == type).map listRelation := by
  induction h with
  | nil => rfl
  | @cons x r fs rs hx _ ih =>
    have hr := relation_of_resolve distinct hx
    rw [indexesOn_cons, ih]
    cases hlist : x.2.type.isList with
    | true =>
      rw [hlist, if_pos rfl] at hr
      subst hr
      by_cases htype : x.2.type.base = type <;> simp [indexesOn, listRelation, hlist, htype]
    | false =>
      rw [hlist, if_neg Bool.false_ne_true] at hr
      simp [indexesOn, hr, hlist]

/-- The relations with an index on a table are those of the fields that list its items. -/
lemma indexesOn_relations (distinct : (s.objects.map ObjectType.name).Nodup) {rs : List Relation}
    (h : relations (Model.registered s) = .ok rs) (type : String) :
    indexesOn type rs = (s.listFields type).map listRelation :=
  indexesOn_of_forall₂ distinct type (forall₂_of_relations h)

/-! ## Names of indexes -/

/-- The index that a relation takes, if it takes one. -/
def taken? (r : Relation) : Option (String × String) := r.index.map fun index => (r.target, index)

lemma notMem_of_lookup_eq_none {owners : List ((String × String) × String)}
    {k : String × String} (h : owners.lookup k = none) : k ∉ owners.map Prod.fst := by
  intro hmem
  obtain ⟨e, he, rfl⟩ := List.mem_map.mp hmem
  exact absurd (List.lookup_eq_none_iff.mp h e he) (by simp)

/-- No index is taken twice, and none that an owner has already. -/
lemma nodup_taken_of_relationsFrom {a : Artifacts} {owners : List ((String × String) × String)}
    {fs : List (ObjectType × Field)} {rs : List Relation}
    (h : relationsFrom a owners fs = .ok rs) :
    (rs.filterMap taken?).Nodup ∧ ∀ k ∈ rs.filterMap taken?, k ∉ owners.map Prod.fst := by
  induction fs generalizing owners rs with
  | nil =>
    obtain rfl := Except.ok.inj h
    exact ⟨List.nodup_nil, List.forall_mem_nil _⟩
  | cons x fs ih =>
    rw [relationsFrom] at h
    obtain ⟨r, _, h⟩ := bind_eq_ok h
    cases hindex : r.index with
    | none =>
      simp only [hindex] at h
      obtain ⟨rs', hrs', h⟩ := bind_eq_ok h
      obtain rfl := Except.ok.inj h
      have htaken : taken? r = none := by rw [taken?, hindex]; rfl
      rw [List.filterMap_cons_none htaken]
      exact ih hrs'
    | some index =>
      simp only [hindex] at h
      split at h
      · cases h
      · rename_i hfree
        obtain ⟨rs', hrs', h⟩ := bind_eq_ok h
        obtain rfl := Except.ok.inj h
        have htaken : taken? r = some (r.target, index) := by rw [taken?, hindex]; rfl
        obtain ⟨hnodup, hnew⟩ := ih hrs'
        rw [List.filterMap_cons_some htaken, List.nodup_cons, List.forall_mem_cons]
        -- the rest of the relations found the index among the owners
        refine ⟨⟨fun hmem => hnew _ hmem (by simp), hnodup⟩, notMem_of_lookup_eq_none hfree, ?_⟩
        intro k hk hold
        exact hnew k hk (by simpa using Or.inl hold)

lemma nodup_indexName (distinct : (s.objects.map ObjectType.name).Nodup) {rs : List Relation}
    (h : relations (Model.registered s) = .ok rs) (type : String) :
    ((s.listFields type).map indexName).Nodup := by
  have hnodup := (nodup_taken_of_relationsFrom h).1
  have hsublist := (List.filter_sublist (p := fun r : Relation =>
    r.index.isSome && r.target == type) (l := rs)).filterMap taken?
  have hfields := hsublist.nodup hnodup
  change ((indexesOn type rs).filterMap taken?).Nodup at hfields
  rw [indexesOn_relations distinct h, List.filterMap_map] at hfields
  have htaken : taken? ∘ listRelation =
      fun x : ObjectType × Field => some (x.2.type.base, indexName x) := rfl
  rw [htaken, List.filterMap_eq_map'] at hfields
  have hpairs : (s.listFields type).map (fun x => (x.2.type.base, indexName x)) =
      ((s.listFields type).map indexName).map (Prod.mk type) := by
    rw [List.map_map]
    refine List.map_congr_left fun x hx => ?_
    have hbase : x.2.type.base = type := by
      have hx := (List.mem_filter.mp hx).2
      rw [Bool.and_eq_true, beq_iff_eq] at hx
      exact hx.2
    rw [hbase]
    rfl
  rw [hpairs] at hfields
  exact hfields.of_map _

/-! ## Collecting indexes -/

section Collecting

variable {d : Document} {a : Artifacts} {tables : Entries TableIndexes}

/-- What a table is to have, as far as it has been collected. -/
def collected (d : Document) (tables : Entries TableIndexes) (table : String) : TableIndexes :=
  (tables.get? table).getD (.ofDocument d table)

lemma addIndex_of_single {r : Relation} (h : r.index = none) : addIndex d a tables r = tables := by
  rw [addIndex, h]

lemma addIndex_of_list {r : Relation} {index : String} {m : Model} (h : r.index = some index)
    (hm : a.model? r.target = some m) :
    addIndex d a tables r = tables.insert m.table
      ⟨(collected d tables m.table).attributes ++ [Model.attributeDefinition r.key],
       (collected d tables m.table).indexes ++ [indexDefinition d m.table index r.key]⟩ := by
  rw [addIndex, h, hm]
  rfl

/-- The index of a relation on a table. -/
def definitionOn (d : Document) (table : String) (r : Relation) : Json :=
  indexDefinition d table (r.index.getD "") r.key

/-- Every relation leads to a model type. -/
def Targeted (a : Artifacts) (rs : List Relation) : Prop :=
  ∀ r ∈ rs, a.model? r.target = some (Model.ofType r.target)

lemma table_ne_of_ne {type type' : String} (h : type ≠ type') :
    Model.Part.table.id type ≠ Model.Part.table.id type' :=
  fun heq => h (Model.Part.id_injective heq).2

/-- One relation adds its index to the table of its target and leaves the others alone. -/
lemma collected_addIndex (d : Document) (tables : Entries TableIndexes) {r : Relation}
    (targeted : Targeted a [r]) (type : String) :
    collected d (addIndex d a tables r) (Model.Part.table.id type) =
        ⟨(collected d tables (Model.Part.table.id type)).attributes ++
            (indexesOn type [r]).map fun r => Model.attributeDefinition r.key,
          (collected d tables (Model.Part.table.id type)).indexes ++
            (indexesOn type [r]).map (definitionOn d (Model.Part.table.id type))⟩ ∧
      (Model.Part.table.id type ∈ Entries.keys (addIndex d a tables r) ↔
        Model.Part.table.id type ∈ Entries.keys tables ∨ indexesOn type [r] ≠ []) := by
  cases hindex : r.index with
  | none =>
    have hnone : indexesOn type [r] = [] := by simp [indexesOn, hindex]
    rw [addIndex_of_single hindex, hnone]
    simp
  | some index =>
    rw [addIndex_of_list hindex (targeted r List.mem_cons_self)]
    change _ ∧ (_ ∈ Entries.keys (Entries.insert tables (Model.Part.table.id r.target) _) ↔ _)
    rw [Entries.keys_insert]
    by_cases htarget : r.target = type
    · subst htarget
      have hone : indexesOn r.target [r] = [r] := by simp [indexesOn, hindex]
      have hdefinition : definitionOn d (Model.Part.table.id r.target) r =
          indexDefinition d (Model.Part.table.id r.target) index r.key := by
        rw [definitionOn, hindex]
        rfl
      rw [hone, List.map_singleton, List.map_singleton, hdefinition]
      refine ⟨?_, by split <;> simp [*]⟩
      rw [collected, Entries.get?_insert]
      exact congrArg (Option.getD · _) (if_pos rfl)
    · have hnone : indexesOn type [r] = [] := by simp [indexesOn, htarget]
      have hne := table_ne_of_ne htarget
      rw [hnone]
      refine ⟨?_, by split <;> simp [Ne.symm hne]⟩
      rw [collected, Entries.get?_insert]
      refine (congrArg (Option.getD · _) (if_neg hne)).trans ?_
      simp [collected]

/-- Relation by relation, a table collects the indexes on it, in order. -/
lemma collected_foldl_addIndex (d : Document) (tables : Entries TableIndexes)
    {rs : List Relation} (targeted : Targeted a rs) (type : String) :
    collected d (rs.foldl (addIndex d a) tables) (Model.Part.table.id type) =
        ⟨(collected d tables (Model.Part.table.id type)).attributes ++
            (indexesOn type rs).map fun r => Model.attributeDefinition r.key,
          (collected d tables (Model.Part.table.id type)).indexes ++
            (indexesOn type rs).map (definitionOn d (Model.Part.table.id type))⟩ ∧
      (Model.Part.table.id type ∈ Entries.keys (rs.foldl (addIndex d a) tables) ↔
        Model.Part.table.id type ∈ Entries.keys tables ∨ indexesOn type rs ≠ []) := by
  induction rs generalizing tables with
  | nil => simp [indexesOn]
  | cons r rs ih =>
    have hone : Targeted a [r] := fun r' hr' =>
      targeted r' (List.mem_singleton.mp hr' ▸ List.mem_cons_self)
    have hrest : Targeted a rs := fun r' hr' => targeted r' (List.mem_cons_of_mem r hr')
    obtain ⟨hvalue, hkeys⟩ := collected_addIndex d tables hone type
    obtain ⟨hvalues, hallKeys⟩ := ih (addIndex d a tables r) hrest
    rw [List.foldl_cons, hvalues, hvalue, hallKeys, hkeys, indexesOn_cons type r rs]
    refine ⟨by simp, ?_⟩
    rw [or_assoc, ne_eq, ne_eq, ne_eq, List.append_eq_nil_iff, not_and_or]

lemma nodup_keys_foldl_addIndex (rs : List Relation) (h : (Entries.keys tables).Nodup) :
    (Entries.keys (rs.foldl (addIndex d a) tables)).Nodup := by
  induction rs generalizing tables with
  | nil => exact h
  | cons r rs ih =>
    refine ih ?_
    rw [addIndex]
    split
    · exact Entries.nodup_insert h _ _
    · exact h

end Collecting

/-! ## Tables of the build -/

section Built

variable {name : String} {config : BuildConfig} {rs : List Relation}

lemma targeted_of_resolved (resolved : Resolved s rs) : Targeted (Model.registered s) rs := by
  intro r hr
  obtain ⟨_, _, _, _, _, _, _, _, t, ht, htarget⟩ := resolved r hr
  exact Model.model?_registered.mpr ⟨⟨t, ht, htarget⟩, rfl⟩

lemma property?_model_built_table (name : String) (config : BuildConfig)
    (distinct : (s.objects.map ObjectType.name).Nodup) {o : ObjectType} (ho : o ∈ s.modelTypes)
    (key : String) :
    (Model.built name config s).document.property? (Model.Part.table.id o.name) key =
      (Model.tableResource config o.name).property? key := by
  rw [Document.property?, Model.get?_built_part name config distinct ho .table]
  rfl

lemma mem_amendments_iff {tables : Entries TableIndexes} {b : Amendment} :
    b ∈ amendments tables ↔ ∃ table t, (table, t) ∈ tables ∧
      (b = ⟨table, "AttributeDefinitions", .array t.attributes⟩ ∨
        b = ⟨table, "GlobalSecondaryIndexes", .array t.indexes⟩) := by
  rw [amendments, List.mem_flatMap]
  constructor
  · rintro ⟨⟨table, t⟩, ht, hb⟩
    exact ⟨table, t, ht, by simpa using hb⟩
  · rintro ⟨table, t, ht, hb⟩
    exact ⟨(table, t), ht, by simpa using hb⟩

/-- The relations set the attributes and the indexes of a table to what has been collected for it,
if anything has, and leave its other properties alone. -/
lemma property?_built_table (name : String) (config : BuildConfig)
    (distinct : (s.objects.map ObjectType.name).Nodup) (rs : List Relation) {o : ObjectType}
    (ho : o ∈ s.modelTypes) :
    let table := Model.Part.table.id o.name
    let tables := rs.foldl
      (addIndex (Model.built name config s).document (Model.registered s)) []
    let kept (key : String) := (Model.tableResource config o.name).property? key
    let value (key : String) := (built name config s rs).document.property? table key
    (∀ key, key ≠ "AttributeDefinitions" → key ≠ "GlobalSecondaryIndexes" →
        value key = kept key) ∧
      (table ∉ Entries.keys tables → ∀ key, value key = kept key) ∧
      ∀ t, Entries.get? tables table = some t →
        value "AttributeDefinitions" = some (.array t.attributes) ∧
          value "GlobalSecondaryIndexes" = some (.array t.indexes) := by
  intro table tables kept value
  have hvalue : ∀ key, value key =
      (Context.amended (amendments tables) table (Model.tableResource config o.name)).property?
        key := by
    intro key
    change ((built name config s rs).document.get? table).bind _ = _
    rw [get?_built, Model.get?_built_part name config distinct ho .table]
    rfl
  refine ⟨fun key hattributes hindexes => ?_, fun hnone key => ?_, fun t ht => ?_⟩
  · rw [hvalue]
    refine Context.property?_amended_of_untouched (fun b hb _ => ?_) _
    rcases Wiring.property_of_mem_amendments hb with h | h <;> rw [h]
    · exact hattributes.symm
    · exact hindexes.symm
  · rw [hvalue]
    refine congrArg (Resource.property? · key)
      (Context.amended_of_untargeted (fun b hb heq => ?_) _)
    obtain ⟨table', t, ht, hb⟩ := mem_amendments_iff.mp hb
    refine hnone (List.mem_map.mpr ⟨(table', t), ht, ?_⟩)
    rcases hb with rfl | rfl <;> exact heq
  · have hnodup : (Entries.keys tables).Nodup :=
      nodup_keys_foldl_addIndex rs List.nodup_nil
    -- the amendments of a table agree, because it is collected once
    have same : ∀ {t'}, (table, t') ∈ tables → t' = t := fun ht' =>
      Option.some.inj ((Entries.get?_of_mem hnodup ht').symm.trans ht)
    have hmem := Entries.mem_of_get? ht
    rw [hvalue, hvalue]
    constructor
    · refine Context.property?_amended_of_agree
        ⟨_, mem_amendments_iff.mpr ⟨table, t, hmem, Or.inl rfl⟩, rfl, rfl⟩ ?_ _
      intro b hb htarget hproperty
      obtain ⟨table', t', ht', rfl | rfl⟩ := mem_amendments_iff.mp hb
      · obtain rfl : table' = table := htarget
        rw [same ht']
      · simp at hproperty
    · refine Context.property?_amended_of_agree
        ⟨_, mem_amendments_iff.mpr ⟨table, t, hmem, Or.inr rfl⟩, rfl, rfl⟩ ?_ _
      intro b hb htarget hproperty
      obtain ⟨table', t', ht', rfl | rfl⟩ := mem_amendments_iff.mp hb
      · simp at hproperty
      · obtain rfl : table' = table := htarget
        rw [same ht']

/-- Before the relations are in, a table has one attribute and no index. -/
lemma ofDocument_model_built (name : String) (config : BuildConfig)
    (distinct : (s.objects.map ObjectType.name).Nodup) {o : ObjectType} (ho : o ∈ s.modelTypes) :
    TableIndexes.ofDocument (Model.built name config s).document (Model.Part.table.id o.name) =
      ⟨[stringAttribute "id"], []⟩ := by
  rw [TableIndexes.ofDocument, property?_model_built_table name config distinct ho,
    property?_model_built_table name config distinct ho]
  rfl

lemma definitionOn_listRelation (name : String) (config : BuildConfig)
    (distinct : (s.objects.map ObjectType.name).Nodup) {o : ObjectType} (ho : o ∈ s.modelTypes) :
    (definitionOn (Model.built name config s).document (Model.Part.table.id o.name)) ∘
        listRelation = index (Model.throughput config) := by
  funext x
  rw [Function.comp_apply, definitionOn, indexDefinition,
    property?_model_built_table name config distinct ho]
  rfl

lemma indexed_built (name : String) (config : BuildConfig)
    (distinct : (s.objects.map ObjectType.name).Nodup)
    (h : relations (Model.registered s) = .ok rs) {o : ObjectType} (ho : o ∈ s.modelTypes) :
    Indexed s (built name config s rs).document o.name := by
  have resolved := resolved_of_relations distinct h
  obtain ⟨hkept, hnone, hsome⟩ := property?_built_table name config distinct rs ho
  obtain ⟨hcollected, hkeys⟩ := collected_foldl_addIndex
    (Model.built name config s).document []
    (targeted_of_resolved resolved) o.name
  rw [indexesOn_relations distinct h, List.map_map, List.map_map,
    definitionOn_listRelation name config distinct ho] at hcollected
  rw [indexesOn_relations distinct h, ne_eq, List.map_eq_nil_iff, Entries.keys_nil] at hkeys
  have hstart : collected (Model.built name config s).document [] (Model.Part.table.id o.name) =
      ⟨[stringAttribute "id"], []⟩ := ofDocument_model_built name config distinct ho
  rw [hstart] at hcollected
  have htable : (Model.Part.table.id o.name, ResourceType.table) ∈
      (built name config s rs).document.outline := by
    rw [outline_built name config resolved]
    exact List.mem_append_left _ (Wiring.part_mem_outline name config distinct ho .table)
  have hthroughput := hkept "ProvisionedThroughput" (by decide) (by decide)
  by_cases hempty : s.listFields o.name = []
  · have hkey : Model.Part.table.id o.name ∉ Entries.keys (rs.foldl (addIndex
        (Model.built name config s).document (Model.registered s)) []) := by
      rw [hkeys]
      simp [hempty]
    refine ⟨htable, ⟨_, hthroughput, ?_⟩, ?_, nodup_indexName distinct h o.name⟩
    · rw [hempty]
      exact hnone hkey "GlobalSecondaryIndexes"
    · rw [hempty]
      exact hnone hkey "AttributeDefinitions"
  · obtain ⟨t, ht⟩ := Entries.exists_get?_of_mem_keys (hkeys.mpr (Or.inr hempty))
    rw [collected, ht, Option.getD_some] at hcollected
    obtain ⟨hattributes, hindexes⟩ := hsome t ht
    refine ⟨htable, ⟨_, hthroughput, ?_⟩, ?_, nodup_indexName distinct h o.name⟩
    · rw [if_neg (by simpa using hempty)]
      exact hindexes.trans (by rw [hcollected]; rfl)
    · exact hattributes.trans (by rw [hcollected]; rfl)

end Built

end Connection

namespace Indexing

/-- Authorization changes nothing about tables. -/
lemma Indexed.guarded {s : Schema} {rs : List Relation} {name type : String} {config : BuildConfig}
    (h : Indexed s (Connection.built name config s rs).document type) (pool : String) :
    Indexed s (Auth.built pool name config s rs).document type := by
  have kept : ∀ key ∈ ["ProvisionedThroughput", "GlobalSecondaryIndexes", "AttributeDefinitions"],
      (Auth.built pool name config s rs).document.property? (type ++ "Table") key =
        (Connection.built name config s rs).document.property? (type ++ "Table") key := by
    intro key hkey
    refine Auth.property?_built_of_untouched fun a ha _ heq => ?_
    rw [← heq] at hkey
    rcases Auth.mem_amendments.mp ha with hapi | ⟨_, _, _, _, op, hop⟩
    · rcases Auth.mem_apiAmendments.mp hapi with rfl | rfl <;> simp at hkey
    · rcases Auth.mem_guardsOfOperation.mp hop with rfl | ⟨_, _, rfl⟩ <;> simp at hkey
  obtain ⟨htable, ⟨throughput, hthroughput, hindexes⟩, hattributes, distinct⟩ := h
  refine ⟨?_, ⟨throughput, ?_, ?_⟩, ?_, distinct⟩
  · rwa [Auth.outline_built]
  · rwa [kept _ (by simp)]
  · rwa [kept _ (by simp)]
  · rwa [kept _ (by simp)]

end Indexing

namespace Pipeline

open Indexing

/-- The relations are resolved even where the pipeline leaves them out, for then there are none. -/
lemma relations_of_founded {c : BuildConfig} {p : Pipeline} (hp : standard c = .ok p) {s : Schema}
    (handled : p.checkDirectives s = .ok ()) {rs : List Relation}
    (founded : Founded c.apiName c c.connections s rs) :
    Connection.relations (Model.registered s) = .ok rs := by
  have hrs := founded.relations
  cases hconnections : c.connections with
  | true => rwa [hconnections, if_pos rfl] at hrs
  | false =>
    rw [hconnections] at hrs
    obtain rfl : rs = [] := hrs
    rw [Connection.relations, Connection.fields_registered,
      connectionFields_eq_nil hconnections hp handled]
    rfl

lemma indexed_of_compileSchema {c : BuildConfig} {p : Pipeline} (hp : standard c = .ok p)
    {s : Schema} (distinct : (s.objects.map ObjectType.name).Nodup) {d : Document}
    (compiled : p.compileSchema s = .ok d) {o : ObjectType} (ho : o ∈ s.modelTypes) :
    Indexed s d o.name := by
  have handled := ((compileSchema_eq_ok_iff hp distinct).mp compiled).1
  obtain ⟨rs, founded, hd⟩ := built_of_compileSchema hp distinct compiled
  have hrelations := relations_of_founded hp handled founded
  have indexed := Connection.indexed_built c.apiName c distinct hrelations ho
  rcases hd with rfl | ⟨pool, rfl⟩
  · exact indexed
  · exact indexed.guarded pool

/-- In a compiled document, the table of every model type has exactly the indexes of the list fields
whose items it holds, in declaration order and under distinct names, each with the throughput of
the table and with a key that the table declares; and it declares no other attributes but the
ID. -/
theorem indexed_of_compile {c : BuildConfig} {p : Pipeline} (hp : standard c = .ok p)
    {text : String} {d : Document} (compiled : p.compile text = .ok d) :
    ∃ s, Schema.parse text = .ok s ∧ ∀ o ∈ s.modelTypes, Indexed s d o.name := by
  obtain ⟨s, hparse, hcompiled, _⟩ := exists_compiled hp compiled
  have distinct := Schema.nodup_objects (Schema.check_of_parse hparse)
  exact ⟨s, hparse, fun o ho => indexed_of_compileSchema hp distinct hcompiled ho⟩

/-- Posts are listed by their author and, twice, by the tag that they have. -/
def listingText : String :=
  "type Author @model \x7b id: ID! posts: [Post] @connection(name: \"written\") \x7d " ++
    "type Tag @model \x7b id: ID! posts: [Post!]! @connection drafts: [Post] @connection \x7d " ++
    "type Post @model \x7b id: ID! author: Author @connection(name: written) \x7d"

def listingConfig : BuildConfig := { apiName := "press", readCapacity := 2 }

def listingPipeline : Pipeline := ⟨standardStages listingConfig, rfl⟩

theorem indexed_of_compile_listing :
    ∃ d throughput, listingPipeline.compile listingText = .ok d ∧
      d.property? "PostTable" "ProvisionedThroughput" = some throughput ∧
      d.property? "PostTable" "GlobalSecondaryIndexes" = some (.array
        [.object [("IndexName", .string "gsi-written"),
           ("KeySchema", .array [.object [("AttributeName", .string "authorPostsId"),
             ("KeyType", .string "HASH")]]),
           ("Projection", .object [("ProjectionType", .string "ALL")]),
           ("ProvisionedThroughput", throughput)],
         .object [("IndexName", .string "gsi-TagPosts"),
           ("KeySchema", .array [.object [("AttributeName", .string "tagPostsId"),
             ("KeyType", .string "HASH")]]),
           ("Projection", .object [("ProjectionType", .string "ALL")]),
           ("ProvisionedThroughput", throughput)],
         .object [("IndexName", .string "gsi-TagDrafts"),
           ("KeySchema", .array [.object [("AttributeName", .string "tagDraftsId"),
             ("KeyType", .string "HASH")]]),
           ("Projection", .object [("ProjectionType", .string "ALL")]),
           ("ProvisionedThroughput", throughput)]]) ∧
      d.property? "TagTable" "GlobalSecondaryIndexes" = none := by
  have hp : standard listingConfig = .ok listingPipeline := rfl
  -- the text is read once for both, the fields and the document
  have heval : (Schema.parse listingText).toOption.any (fun s =>
      (s.modelTypes.map ObjectType.name, (s.listFields "Post").map fun x => (indexName x, keyName x),
          (s.listFields "Tag").isEmpty) =
        (["Author", "Tag", "Post"], [("gsi-written", "authorPostsId"),
          ("gsi-TagPosts", "tagPostsId"), ("gsi-TagDrafts", "tagDraftsId")], true) ∧
      (listingPipeline.compileSchema s).toOption.isSome = true) = true := by
    decide +kernel
  obtain ⟨s, hparse, hs⟩ := exists_of_any heval
  obtain ⟨hfields, hok⟩ := of_decide_eq_true hs
  obtain ⟨hnames, hfields⟩ := Prod.mk.inj hfields
  obtain ⟨hposts, htags⟩ := Prod.mk.inj hfields
  have hcompiles : listingPipeline.compile listingText = listingPipeline.compileSchema s := by
    rw [compile, hparse]
  cases hcompile : listingPipeline.compileSchema s with
  | error e =>
    rw [hcompile] at hok
    cases hok
  | ok d =>
    rw [hcompile] at hcompiles
    obtain ⟨s', hparse', indexed⟩ := indexed_of_compile hp hcompiles
    obtain rfl := Except.ok.inj (hparse.symm.trans hparse')
    have types : ∀ type ∈ ["Author", "Tag", "Post"], Indexed s d type := by
      intro type htype
      rw [← hnames] at htype
      obtain ⟨o, ho, rfl⟩ := List.mem_map.mp htype
      exact indexed o ho
    obtain ⟨_, ⟨throughput, hthroughput, hindexes⟩, _, _⟩ := types "Post" (by simp)
    obtain ⟨_, ⟨_, _, hnone⟩, _, _⟩ := types "Tag" (by simp)
    refine ⟨d, throughput, hcompiles, hthroughput, ?_, ?_⟩
    · have hmap : (s.listFields "Post").map (index throughput) =
          ((s.listFields "Post").map fun x => (indexName x, keyName x)).map fun n =>
            .object [("IndexName", .string n.1),
              ("KeySchema", .array [.object [("AttributeName", .string n.2),
                ("KeyType", .string "HASH")]]),
              ("Projection", .object [("ProjectionType", .string "ALL")]),
              ("ProvisionedThroughput", throughput)] := by
        rw [List.map_map]
        rfl
      have hsome : (s.listFields "Post").isEmpty = false := by
        rw [← List.isEmpty_map (f := fun x => (indexName x, keyName x)), hposts]
        rfl
      rw [hsome, hmap, hposts] at hindexes
      exact hindexes
    · rw [htags] at hnone
      exact hnone

end Pipeline

end SchemaStack
