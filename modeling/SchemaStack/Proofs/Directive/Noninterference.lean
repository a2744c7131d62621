import SchemaStack.Proofs.Directive.Configuration
import SchemaStack.Proofs.Directive.Indexing
/-!
# Where the configuration shows

What is configured ends up in a few properties: the names of the API, of tables and of roles, the
description of the key, the user pool, and the throughput of tables and of their indexes. A document
is redacted by blanking these out. Redaction passes through a contribution: the redacted document
amended by the redacted amendments is the amended document, redacted. Every stage contributes the
same under two configurations once it is redacted, so the documents are the same once redacted.
-/

namespace SchemaStack

/-! ## Redaction -/

namespace Redaction

/-- The properties that say what is configured, by the type of their resource. -/
def configured : List (ResourceType × String) :=
  [(.api, "Name"), (.api, "UserPoolConfig"), (.apiKey, "Description"), (.table, "TableName"),
   (.table, "ProvisionedThroughput"), (.role, "RoleName")]

/-- An index of a table with its throughput blanked out. -/
def index : Json → Json
  | .object members =>
    .object (members.map fun m => (m.1, if m.1 = "ProvisionedThroughput" then .null else m.2))
  | v => v

def indexes : Json → Json
  | .array items => .array (items.map index)
  | v => v

/-- The value of a property with what is configured blanked out. -/
def value (type : ResourceType) (key : String) (v : Json) : Json :=
  if (type, key) ∈ configured then .null
  else if (type, key) = (.table, "GlobalSecondaryIndexes") then indexes v
  else v

end Redaction

def Resource.redacted (r : Resource) : Resource where
  type := r.type
  properties := r.properties.map fun p => (p.1, Redaction.value r.type p.1 p.2)

/-- Entries with their resources redacted. -/
def redactedOf (es : Entries Resource) : Entries Resource := es.map fun e => (e.1, e.2.redacted)

lemma outlineOf_redactedOf (es : Entries Resource) : outlineOf (redactedOf es) = outlineOf es := by
  rw [outlineOf, redactedOf, List.map_map]
  rfl

lemma outlineOf_congr {es es' : Entries Resource} (h : redactedOf es = redactedOf es') :
    outlineOf es = outlineOf es' := by
  rw [← outlineOf_redactedOf es, h, outlineOf_redactedOf]

/-- A document with what is configured blanked out. The IDs, the order and the types of the
resources stay, and so do the names and the order of their properties. -/
def Document.redacted (d : Document) : Document := ⟨d.formatVersion, redactedOf d.resources⟩

/-- An amendment redacted for the type of its target, where it reaches one. -/
def Amendment.redacted (types : Entries ResourceType) (a : Amendment) : Amendment :=
  match types.get? a.target with
  | some type => ⟨a.target, a.property, Redaction.value type a.property a.value⟩
  | none => a

lemma Amendment.redacted_of_type {types : Entries ResourceType} {a : Amendment}
    {type : ResourceType} (h : types.get? a.target = some type) :
    a.redacted types = ⟨a.target, a.property, Redaction.value type a.property a.value⟩ := by
  rw [redacted, h]

lemma Amendment.target_redacted (types : Entries ResourceType) (a : Amendment) :
    (a.redacted types).target = a.target := by
  rw [redacted]
  split <;> rfl

namespace Document

variable {d : Document}

lemma outline_congr {d' : Document} (h : d.redacted = d'.redacted) : d.outline = d'.outline :=
  outlineOf_congr (congrArg Document.resources h)

lemma get?_outline (d : Document) (id : String) :
    Entries.get? d.outline id = (d.get? id).map Resource.type :=
  Entries.get?_map Resource.type d.resources id

lemma get?_redacted (d : Document) (id : String) :
    d.redacted.get? id = (d.get? id).map Resource.redacted :=
  Entries.get?_map Resource.redacted d.resources id

lemma property?_redacted {id : String} {type : ResourceType}
    (h : Entries.get? d.outline id = some type) (key : String) :
    d.redacted.property? id key = (d.property? id key).map (Redaction.value type key) := by
  rw [get?_outline] at h
  obtain ⟨r, hr, rfl⟩ := Option.map_eq_some_iff.mp h
  rw [property?, property?, get?_redacted, hr]
  exact Entries.get?_map_keyed (Redaction.value r.type) r.properties key

end Document

lemma Resource.redacted_set (r : Resource) (key : String) (v : Json) :
    (r.set key v).redacted = r.redacted.set key (Redaction.value r.type key v) :=
  congrArg (Resource.mk r.type) (Entries.map_insert (Redaction.value r.type) r.properties key v)

namespace Context

lemma redacted_amend (d : Document) (a : Amendment) :
    (amend d a).redacted = amend d.redacted (a.redacted d.outline) := by
  refine congrArg (Document.mk d.formatVersion) ?_
  rw [Amendment.target_redacted]
  apply Entries.map_modify
  intro r hr
  have htype : Entries.get? d.outline a.target = some r.type := by
    rw [Document.get?_outline, Document.get?, hr, Option.map_some]
  rw [Amendment.redacted_of_type htype]
  exact r.redacted_set a.property a.value

lemma redacted_foldl_amend (as : List Amendment) (d : Document) :
    (as.foldl amend d).redacted =
      (as.map (Amendment.redacted d.outline)).foldl amend d.redacted := by
  induction as generalizing d with
  | nil => rfl
  | cons a as ih =>
    rw [List.foldl_cons, ih, outline_amend, redacted_amend, List.map_cons, List.foldl_cons]

/-- Redaction passes through a contribution. -/
lemma redacted_apply (d : Document) (k : Contribution) :
    (apply d k).redacted = apply d.redacted
      ⟨redactedOf k.entries,
        k.amendments.map (Amendment.redacted (d.outline ++ outlineOf k.entries))⟩ := by
  have houtline : ({ d with resources := d.resources ++ k.entries } : Document).outline =
      d.outline ++ outlineOf k.entries := outlineOf_append _ _
  have hentries : ({ d with resources := d.resources ++ k.entries } : Document).redacted =
      { d.redacted with resources := d.redacted.resources ++ redactedOf k.entries } :=
    congrArg (Document.mk d.formatVersion) List.map_append
  rw [apply, redacted_foldl_amend, houtline, hentries, apply]

/-- Contributions that are the same once redacted lead to documents that are. -/
lemma redacted_apply_congr {d d' : Document} {k k' : Contribution}
    (documents : d.redacted = d'.redacted) (entries : redactedOf k.entries = redactedOf k'.entries)
    (amendments : ∀ types, d.outline <+: types →
      k.amendments.map (Amendment.redacted types) = k'.amendments.map (Amendment.redacted types)) :
    (apply d k).redacted = (apply d' k').redacted := by
  have houtline := Document.outline_congr documents
  have houtlines := outlineOf_congr entries
  rw [redacted_apply, redacted_apply, documents, entries, ← houtline, ← houtlines,
    amendments _ (List.prefix_append _ _)]

end Context

/-! ## The API and the model types -/

lemma Api.redacted_built (name name' : String) (s : Schema) :
    (built name s).document.redacted = (built name' s).document.redacted := rfl

namespace Model

lemma redacted_entries (config config' : BuildConfig) (type : String) :
    redactedOf (entries config type) = redactedOf (entries config' type) := rfl

lemma redacted_built (name name' : String) (config config' : BuildConfig) (s : Schema) :
    (built name config s).document.redacted = (built name' config' s).document.redacted := by
  refine Context.redacted_apply_congr (Api.redacted_built name name' s) ?_ fun _ _ => rfl
  rw [contribution, contribution, redactedOf, redactedOf, List.map_flatMap, List.map_flatMap]
  exact List.flatMap_congr fun type _ => redacted_entries config config' type

/-- The table of a model type is a table. -/
lemma type_table (name : String) (config : BuildConfig) {s : Schema}
    (distinct : (s.objects.map ObjectType.name).Nodup) {o : ObjectType} (ho : o ∈ s.modelTypes) :
    Entries.get? (built name config s).document.outline (Part.table.id o.name) = some .table := by
  rw [Document.get?_outline, get?_built_part name config distinct ho .table]
  rfl

end Model

/-! ## The relations -/

namespace Connection

def TableIndexes.redacted (t : TableIndexes) : TableIndexes where
  attributes := t.attributes
  indexes := t.indexes.map Redaction.index

/-- What is collected for the tables, redacted. -/
def redactedTables (tables : Entries TableIndexes) : Entries TableIndexes :=
  tables.map fun e => (e.1, e.2.redacted)

section Collecting

variable {d : Document} {a : Artifacts} {table : String}

lemma array?_indexes (v : Json) :
    (Redaction.indexes v).array? = v.array?.map fun items => items.map Redaction.index := by
  cases v <;> rfl

lemma ofDocument_redacted (h : Entries.get? d.outline table = some .table) :
    TableIndexes.ofDocument d.redacted table =
      (TableIndexes.ofDocument d table).redacted := by
  have hattributes : d.redacted.property? table "AttributeDefinitions" =
      d.property? table "AttributeDefinitions" := by
    rw [Document.property?_redacted h]
    cases d.property? table "AttributeDefinitions" <;> rfl
  have hindexes : d.redacted.property? table "GlobalSecondaryIndexes" =
      (d.property? table "GlobalSecondaryIndexes").map Redaction.indexes :=
    Document.property?_redacted h _
  rw [TableIndexes.ofDocument, TableIndexes.ofDocument, hattributes, hindexes,
    TableIndexes.redacted]
  cases d.property? table "GlobalSecondaryIndexes" with
  | none => rfl
  | some v =>
    simp only [Option.map_some, Option.bind_some, array?_indexes]
    cases v.array? <;> rfl

/-- Of an index, the throughput of its table is all that is configured. -/
lemma index_indexDefinition (h : Entries.get? d.outline table = some .table)
    (index key : String) :
    Redaction.index (indexDefinition d table index key) =
      indexDefinition d.redacted table index key := by
  have hthroughput : (d.redacted.property? table "ProvisionedThroughput").getD .null = .null := by
    rw [Document.property?_redacted h]
    cases d.property? table "ProvisionedThroughput" <;> rfl
  rw [indexDefinition, indexDefinition, hthroughput]
  rfl

/-- The model type that a relation leads to has a table in the document. -/
def Tabled (d : Document) (a : Artifacts) (r : Relation) : Prop :=
  ∀ m, a.model? r.target = some m → Entries.get? d.outline m.table = some .table

lemma collected_redacted (h : Entries.get? d.outline table = some .table)
    (tables : Entries TableIndexes) :
    collected d.redacted (redactedTables tables) table =
      (collected d tables table).redacted := by
  rw [collected, collected, redactedTables, Entries.get?_map, ofDocument_redacted h]
  cases Entries.get? tables table <;> rfl

lemma addIndex_redacted {r : Relation} (tabled : Tabled d a r) (tables : Entries TableIndexes) :
    redactedTables (addIndex d a tables r) = addIndex d.redacted a (redactedTables tables) r := by
  cases hindex : r.index with
  | none => rw [addIndex_of_single hindex, addIndex_of_single hindex]
  | some index =>
    cases hm : a.model? r.target with
    | none => simp only [addIndex, hindex, hm]
    | some m =>
      have htable := tabled m hm
      rw [addIndex_of_list hindex hm, addIndex_of_list hindex hm, collected_redacted htable,
        ← index_indexDefinition htable, redactedTables, redactedTables,
        Entries.map_insert fun _ => TableIndexes.redacted]
      simp [TableIndexes.redacted]

lemma foldl_addIndex_redacted {rs : List Relation} (tabled : ∀ r ∈ rs, Tabled d a r)
    (tables : Entries TableIndexes) :
    redactedTables (rs.foldl (addIndex d a) tables) =
      rs.foldl (addIndex d.redacted a) (redactedTables tables) := by
  induction rs generalizing tables with
  | nil => rfl
  | cons r rs ih =>
    rw [List.forall_mem_cons] at tabled
    rw [List.foldl_cons, ih tabled.2, addIndex_redacted tabled.1, List.foldl_cons]

end Collecting

lemma amendments_redacted {types : Entries ResourceType} {tables : Entries TableIndexes}
    (h : ∀ id ∈ Entries.keys tables, Entries.get? types id = some .table) :
    (amendments tables).map (Amendment.redacted types) = amendments (redactedTables tables) := by
  rw [amendments, amendments, List.map_flatMap, redactedTables, List.flatMap_map]
  apply List.flatMap_congr
  rintro ⟨table, t⟩ ht
  have htable : Entries.get? types table = some .table :=
    h table (List.mem_map.mpr ⟨_, ht, rfl⟩)
  simp only [List.map_cons, List.map_nil]
  rw [Amendment.redacted_of_type htable, Amendment.redacted_of_type htable]
  rfl

section Built

variable {name : String} {config : BuildConfig} {s : Schema}

lemma tabled_registered (distinct : (s.objects.map ObjectType.name).Nodup) (r : Relation) :
    Tabled (Model.built name config s).document (Model.registered s) r := by
  intro m hm
  obtain ⟨⟨o, ho, hname⟩, rfl⟩ := Model.model?_registered.mp hm
  rw [← hname]
  exact Model.type_table name config distinct ho

/-- The amendments of the relations are redacted by redacting the document that they look at. -/
lemma redacted_contribution (distinct : (s.objects.map ObjectType.name).Nodup)
    (rs : List Relation) {types : Entries ResourceType}
    (known : (Model.built name config s).document.outline <+: types) :
    (contribution name config s rs).amendments.map (Amendment.redacted types) =
      amendments (rs.foldl
        (addIndex (Model.built name config s).document.redacted (Model.registered s)) []) := by
  have htables : ∀ id ∈ Entries.keys (rs.foldl
      (addIndex (Model.built name config s).document (Model.registered s)) []),
      Entries.get? types id = some .table := by
    intro id hid
    obtain ⟨o, ho, rfl⟩ := table_of_mem_keys_addIndex hid
    exact Entries.get?_of_isPrefix known (Model.type_table name config distinct ho)
  rw [contribution, amendments_redacted htables,
    foldl_addIndex_redacted fun r _ => tabled_registered distinct r]
  rfl

end Built

lemma redacted_built (name name' : String) (config config' : BuildConfig) {s : Schema}
    (distinct : (s.objects.map ObjectType.name).Nodup) (rs : List Relation) :
    (built name config s rs).document.redacted = (built name' config' s rs).document.redacted := by
  have models := Model.redacted_built name name' config config' s
  refine Context.redacted_apply_congr models rfl fun types known => ?_
  have known' := known
  rw [Document.outline_congr models] at known'
  rw [redacted_contribution distinct rs known, redacted_contribution distinct rs known', models]

end Connection

/-! ## Authorization -/

namespace Auth

lemma type_api (name : String) (config : BuildConfig) (s : Schema) (rs : List Relation) :
    Entries.get? (Connection.built name config s rs).document.outline Api.apiId = some .api := by
  have models : (Api.built name s).document.outline <+:
      (Model.built name config s).document.outline := by
    rw [Model.built, Context.merged, Context.outline_apply]
    exact List.prefix_append _ _
  have relations : (Model.built name config s).document.outline <+:
      (Connection.built name config s rs).document.outline := by
    rw [Connection.built, Context.merged, Context.outline_apply]
    exact List.prefix_append _ _
  exact Entries.get?_of_isPrefix (models.trans relations) rfl

/-- The user pool is all that is configured of the amendments of the API. -/
lemma apiAmendments_redacted (pool pool' : String) {types : Entries ResourceType}
    (h : Entries.get? types Api.apiId = some .api) :
    (apiAmendments pool).map (Amendment.redacted types) =
      (apiAmendments pool').map (Amendment.redacted types) := by
  have hredacted : ∀ pool, (apiAmendments pool).map (Amendment.redacted types) =
      [⟨Api.apiId, "AuthenticationType", .string "AMAZON_COGNITO_USER_POOLS"⟩,
       ⟨Api.apiId, "UserPoolConfig", .null⟩] := by
    intro pool
    rw [apiAmendments, List.map_cons, List.map_singleton, Amendment.redacted_of_type h,
      Amendment.redacted_of_type h]
    rfl
  rw [hredacted, hredacted]

lemma redacted_built (pool pool' name name' : String) (config config' : BuildConfig) {s : Schema}
    (distinct : (s.objects.map ObjectType.name).Nodup) (rs : List Relation) :
    (built pool name config s rs).document.redacted =
      (built pool' name' config' s rs).document.redacted := by
  have relations := Connection.redacted_built name name' config config' distinct rs
  refine Context.redacted_apply_congr relations rfl fun types known => ?_
  have hapi : Entries.get? types Api.apiId = some .api :=
    Entries.get?_of_isPrefix known (type_api name config s rs)
  rw [contribution, contribution, List.map_append, List.map_append,
    apiAmendments_redacted pool pool' hapi]

end Auth

/-! ## The standard pipeline -/

namespace Pipeline

variable {c c' : BuildConfig} {p p' : Pipeline}

/-- The relations of a schema are the same under every configuration that asks for them. -/
lemma Founded.unique {name name' : String} {config config' : BuildConfig} {connections : Bool}
    {s : Schema} {rs rs' : List Relation} (founded : Founded name config connections s rs)
    (founded' : Founded name' config' connections s rs') : rs = rs' := by
  have hrs := founded.relations
  have hrs' := founded'.relations
  cases connections with
  | true => exact Except.ok.inj (hrs.symm.trans hrs')
  | false => exact hrs.trans hrs'.symm

lemma redacted_compileSchema (hp : standard c = .ok p) (hp' : standard c' = .ok p')
    (connections : c.connections = c'.connections)
    (pool : c.userPool.isSome = c'.userPool.isSome) {s : Schema}
    (distinct : (s.objects.map ObjectType.name).Nodup) {d d' : Document}
    (compiled : p.compileSchema s = .ok d) (compiled' : p'.compileSchema s = .ok d') :
    d.redacted = d'.redacted := by
  cases hpool : c.userPool with
  | none =>
    have hpool' : c'.userPool = none := by simpa [hpool] using pool.symm
    obtain ⟨_, rs, founded, rfl⟩ :=
      (compileSchema_eq_ok_iff_of_none hpool hp distinct).mp compiled
    obtain ⟨_, rs', founded', rfl⟩ :=
      (compileSchema_eq_ok_iff_of_none hpool' hp' distinct).mp compiled'
    rw [← connections] at founded'
    obtain rfl := founded.unique founded'
    exact Connection.redacted_built _ _ _ _ distinct rs
  | some id =>
    obtain ⟨id', hpool'⟩ : ∃ id', c'.userPool = some id' := by
      rw [← Option.isSome_iff_exists, ← pool, hpool]
      rfl
    obtain ⟨_, _, rs, founded, rfl⟩ :=
      (compileSchema_eq_ok_iff_of_some hpool hp distinct).mp compiled
    obtain ⟨_, _, rs', founded', rfl⟩ :=
      (compileSchema_eq_ok_iff_of_some hpool' hp' distinct).mp compiled'
    rw [← connections] at founded'
    obtain rfl := founded.unique founded'
    exact Auth.redacted_built _ _ _ _ _ _ distinct rs

/-- Configurations that ask for the same stages refuse the same texts, with the same faults, and
compile the others to documents that differ in nothing but what is configured. -/
theorem agree_compile_redacted (hp : standard c = .ok p) (hp' : standard c' = .ok p')
    (connections : c.connections = c'.connections)
    (pool : c.userPool.isSome = c'.userPool.isSome) (text : String) :
    Agree (fun d d' => d.redacted = d'.redacted) (p.compile text) (p'.compile text) := by
  cases hparse : Schema.parse text with
  | error e =>
    rw [compile, compile, hparse]
    exact .error _
  | ok s =>
    have distinct := Schema.nodup_objects (Schema.check_of_parse hparse)
    rw [compile_of_parse hparse, compile_of_parse hparse]
    rcases (agree_compileSchema hp hp' connections pool distinct).or with
      ⟨e, he, he'⟩ | ⟨d, d', hd, hd', _⟩
    · rw [he, he']
      exact .error e
    · rw [hd, hd']
      exact .ok (redacted_compileSchema hp hp' connections pool distinct hd hd')

/-- Posts that are listed by their author, who owns them. -/
def ownedText : String :=
  "type Author @model \x7b id: ID! posts: [Post] @connection \x7d " ++
    "type Post @model @auth(rules: [\x7ballow: owner\x7d]) \x7b id: ID! \x7d"

def draftConfig : BuildConfig := { apiName := "draft", readCapacity := 1, userPool := some "eu_1" }

def liveConfig : BuildConfig := { apiName := "live", writeCapacity := 40, userPool := some "us_7" }

def draftPipeline : Pipeline := ⟨standardStages draftConfig, rfl⟩

def livePipeline : Pipeline := ⟨standardStages liveConfig, rfl⟩

theorem agree_compile_redacted_owned :
    ∃ d d', draftPipeline.compile ownedText = .ok d ∧ livePipeline.compile ownedText = .ok d' ∧
      d.redacted = d'.redacted ∧
      (d.property? "PostTable" "TableName").bind Json.string? = some "Post-draft" ∧
      (d'.property? "PostTable" "TableName").bind Json.string? = some "Post-live" := by
  have hp : standard draftConfig = .ok draftPipeline := rfl
  have hp' : standard liveConfig = .ok livePipeline := rfl
  have hname : (draftPipeline.compile ownedText).toOption.any (fun d =>
      (d.property? "PostTable" "TableName").bind Json.string? = some "Post-draft") = true := by
    decide +kernel
  have hname' : (livePipeline.compile ownedText).toOption.any (fun d =>
      (d.property? "PostTable" "TableName").bind Json.string? = some "Post-live") = true := by
    decide +kernel
  obtain ⟨d, hd, hname⟩ := exists_of_any hname
  obtain ⟨d', hd', hname'⟩ := exists_of_any hname'
  have agree := agree_compile_redacted hp hp' rfl rfl ownedText
  rw [hd, hd'] at agree
  cases agree with
  | ok hredacted =>
    exact ⟨d, d', hd, hd', hredacted, of_decide_eq_true hname, of_decide_eq_true hname'⟩

end Pipeline

end SchemaStack
