import SchemaStack.Proofs.Directive.Contents
/-!
# Documents of schemas with common types

A schema that has the types of another, wherever they stand and whatever else it has, makes the same
of them: their fields have the same relations, the same is contributed for them, and the same rules
guard it. What can differ is the text of the schema, and the attributes and the indexes of tables.
-/

namespace SchemaStack

/-! ## IDs -/

/-- A context that has an owner for each of its IDs takes only new ones. -/
lemma Context.Accepts.nodup_ids {c : Context} {k : Contribution} (accepts : c.Accepts k)
    (owned : Entries.keys c.owners = c.document.ids) (distinct : c.document.ids.Nodup) :
    (apply c.document k).ids.Nodup := by
  rw [ids_apply, List.nodup_append']
  exact ⟨distinct, accepts.distinct, fun id hid hnew => accepts.fresh id hnew (owned ▸ hid)⟩

lemma Pipeline.nodup_ids_of_compileSchema {c : BuildConfig} {p : Pipeline}
    (hp : standard c = .ok p) {s : Schema} (distinct : (s.objects.map ObjectType.name).Nodup)
    {d : Document} (compiled : p.compileSchema s = .ok d) : d.ids.Nodup := by
  obtain ⟨rs, founded, hd⟩ := built_of_compileSchema hp distinct compiled
  have hapi : (Api.built c.apiName s).document.ids.Nodup := by
    rw [Api.ids_built]
    decide
  have hmodel : (Model.built c.apiName c s).document.ids.Nodup :=
    (Model.accepts_contribution c.apiName c distinct (Model.registered s)).nodup_ids rfl hapi
  have hbuilt : (Connection.built c.apiName c s rs).document.ids.Nodup :=
    founded.accepts.nodup_ids (Model.keys_owners_built c.apiName c s) hmodel
  rcases hd with rfl | ⟨pool, rfl⟩
  · exact hbuilt
  · rw [← Document.map_fst_outline] at hbuilt ⊢
    rwa [Auth.outline_built]

/-! ## Types and fields -/

section Inclusion

variable {s s' : Schema} (included : s.objects ⊆ s'.objects)
include included

namespace Schema

lemma modelTypes_subset : s.modelTypes ⊆ s'.modelTypes := List.filter_subset _ included

lemma connectionFields_subset : s.connectionFields ⊆ s'.connectionFields := by
  rintro ⟨o, f⟩ hx
  obtain ⟨ho, hf⟩ := mem_connectionFields.mp hx
  exact mem_connectionFields.mpr ⟨included ho, hf⟩

end Schema

/-! ## Relations -/

lemma Model.model?_of_subset {name : String} {m : Model}
    (h : (registered s).model? name = some m) : (registered s').model? name = some m := by
  obtain ⟨⟨o, ho, hname⟩, hm⟩ := model?_registered.mp h
  exact model?_registered.mpr ⟨⟨o, Schema.modelTypes_subset included ho, hname⟩, hm⟩

namespace Connection

variable (distinct : (s.objects.map ObjectType.name).Nodup)
variable (distinct' : (s'.objects.map ObjectType.name).Nodup)
include distinct distinct'

/-- Resolving a field looks at no more than the types that it joins. -/
lemma resolve_of_subset {o : ObjectType} {f : Field} {r : Relation}
    (h : resolve (Model.registered s) o f = .ok r) :
    resolve (Model.registered s') o f = .ok r := by
  obtain ⟨_, _, ⟨t, ht, _⟩, ⟨m, hm⟩, ⟨m', hm'⟩⟩ := joins_of_resolve h
  have ht' : (Model.registered s').types.get? f.type.base = some t := by
    obtain ⟨htype, hname⟩ := (Api.types_registered distinct).mp ht
    exact (Api.types_registered distinct').mpr ⟨included htype, hname⟩
  rw [resolve, hm, hm', ht] at h
  rw [resolve, Model.model?_of_subset included hm, Model.model?_of_subset included hm', ht']
  exact h

lemma relations_subset {rs rs' : List Relation} (h : relations (Model.registered s) = .ok rs)
    (h' : relations (Model.registered s') = .ok rs') : rs ⊆ rs' := by
  intro r hr
  obtain ⟨x, hx, hresolve⟩ := exists_of_mem_forall₂ (forall₂_of_relations h) hr
  obtain ⟨r', hr', hresolve'⟩ := exists_of_mem_forall₂ (forall₂_of_relations h').flip
    (Schema.connectionFields_subset included hx)
  have hsame := resolve_of_subset included distinct distinct' hresolve
  obtain rfl := Except.ok.inj (hsame.symm.trans hresolve')
  exact hr'

end Connection

/-! ## What is contributed -/

namespace Connection

lemma Rewritten.of_subset {id key : String} (h : Rewritten s id key) : Rewritten s' id key := by
  cases h with
  | definition => exact .definition
  | attributes ho => exact .attributes (Schema.modelTypes_subset included ho)
  | indexes ho => exact .indexes (Schema.modelTypes_subset included ho)

end Connection

lemma Wiring.Contributed.of_subset {name : String} {config : BuildConfig} {rs rs' : List Relation}
    (related : rs ⊆ rs') {id : String} {r : Resource} (h : Contributed name config s rs id r) :
    ∃ r', Contributed name config s' rs' id r' ∧
      ∀ key, ¬ Connection.Rewritten s' id key → r'.property? key = r.property? key := by
  cases h with
  | api => exact ⟨_, .api, fun _ _ => rfl⟩
  | key => exact ⟨_, .key, fun _ _ => rfl⟩
  | schema =>
    refine ⟨_, .schema, fun key kept => ?_⟩
    have hkey : "Definition" ≠ key := by
      rintro rfl
      exact kept .definition
    simp only [Resource.property?, Api.schema, Entries.get?_cons, if_neg hkey]
  | part part ho => exact ⟨_, .part part (Schema.modelTypes_subset included ho), fun _ _ => rfl⟩
  | relation hr => exact ⟨_, .relation (related hr), fun _ _ => rfl⟩

lemma Auth.mem_overlay_of_subset {pool : Option String} {a : Amendment}
    (h : a ∈ overlay pool s) : a ∈ overlay pool s' := by
  obtain ⟨id, hpool, ha⟩ := mem_overlay.mp h
  refine mem_overlay.mpr ⟨id, hpool, mem_amendments.mpr ?_⟩
  refine (mem_amendments.mp ha).imp_right ?_
  rintro ⟨o, ho, guards⟩
  exact ⟨o, included ho, guards⟩

end Inclusion

/-! ## The documents -/

namespace Pipeline.Assembled

variable {c : BuildConfig} {s s' : Schema} {rs rs' : List Relation} {d d' : Document}
variable (included : s.objects ⊆ s'.objects)
variable (distinct : (s.objects.map ObjectType.name).Nodup)
variable (distinct' : (s'.objects.map ObjectType.name).Nodup)

/-- A table of the document belongs to a model type of the schema. -/
lemma mem_modelTypes_of_table (h : Assembled c s rs d)
    (distinct : (s.objects.map ObjectType.name).Nodup) {type : String}
    (hid : Model.Part.table.id type ∈ d.ids) : ∃ o ∈ s.modelTypes, o.name = type := by
  obtain ⟨r, contributed⟩ := h.exists_contributed distinct hid
  generalize hsame : Model.Part.table.id type = id at contributed
  have notApi := hsame ▸ Model.Part.id_notMem_api type .table
  cases contributed with
  | api => exact absurd List.mem_cons_self notApi
  | key => exact absurd (by simp) notApi
  | schema => exact absurd (by simp) notApi
  | @part o part ho => exact ⟨o, ho, (Model.Part.id_injective hsame).2.symm⟩
  | relation hr => exact absurd hsame.symm (Connection.resolverId_ne_table _ type)

include included distinct'

/-- More types bring no amendments to what is contributed without them. -/
lemma mem_overlay_iff (h' : Assembled c s' rs' d') (related : rs ⊆ rs') {id key : String}
    {r : Resource} (contributed : Wiring.Contributed c.apiName c s rs id r) {v : Json} :
    ⟨id, key, v⟩ ∈ Auth.overlay c.userPool s ↔ ⟨id, key, v⟩ ∈ Auth.overlay c.userPool s' := by
  refine ⟨Auth.mem_overlay_of_subset included, fun hv => ?_⟩
  obtain ⟨pool, hpool, ha⟩ := Auth.mem_overlay.mp hv
  refine Auth.mem_overlay.mpr ⟨pool, hpool, Auth.mem_amendments.mpr ?_⟩
  refine (Auth.mem_amendments.mp ha).imp_right ?_
  rintro ⟨o', ho', rules, hr, op, hop⟩
  -- the guarded resolver is contributed for a type that both have
  have htarget : (Model.Part.resolver op).id o'.name = id := (Auth.target_of_mem_guards hop).symm
  have notApi := htarget ▸ Model.Part.id_notMem_api o'.name (.resolver op)
  cases contributed with
  | api => exact absurd List.mem_cons_self notApi
  | key => exact absurd (by simp) notApi
  | schema => exact absurd (by simp) notApi
  | @part o part ho =>
    have hobject := (Schema.mem_modelTypes.mp ho).1
    have hsame := Schema.eq_of_name_eq distinct' ho' (included hobject)
      (Model.Part.id_injective htarget).2
    exact ⟨o', hsame ▸ hobject, rules, hr, op, hop⟩
  | relation hr => exact absurd rfl (h'.target_ne_resolverId distinct' (related hr) _ hv)

include distinct

/-- The documents give what they have in common the same properties, but for what the larger
schema sets again. -/
theorem property?_eq_of_subset (h : Assembled c s rs d) (h' : Assembled c s' rs' d') {id : String}
    (hid : id ∈ d.ids) {key : String} (kept : ¬ Connection.Rewritten s' id key) :
    d'.property? id key = d.property? id key := by
  obtain ⟨r, contributed⟩ := h.exists_contributed distinct hid
  have related := Connection.relations_subset included distinct distinct' h.relations h'.relations
  obtain ⟨r', contributed', hsame⟩ := contributed.of_subset included related
  rw [h'.property?_eq distinct' contributed' kept,
    h.property?_eq distinct contributed (mt (Connection.Rewritten.of_subset included) kept)]
  refine (Context.property?_amended_congr (fun v => ?_) (fun v w => ?_) (hsame key kept).symm).symm
  · exact mem_overlay_iff included distinct' h' related contributed
  · exact Auth.value_eq_of_mem_overlay distinct

end Pipeline.Assembled

/-! ## Lists of tables -/

/-- A property that lists values and is left out where there are none. -/
def Document.Lists (d : Document) (id key : String) (vs : List Json) : Prop :=
  d.property? id key = if vs.isEmpty then none else some (.array vs)

lemma Document.Lists.property?_congr {d d' : Document} {id key : String} {vs : List Json}
    (h : d.Lists id key vs) (h' : d'.Lists id key vs) : d'.property? id key = d.property? id key :=
  h'.trans h.symm

namespace Indexing

/-- The properties of a table that grow with the list fields that it is read by. -/
def listKeys : List String := ["AttributeDefinitions", "GlobalSecondaryIndexes"]

/-- What a table lists for the fields that it is read by. -/
def listedFor (throughput : Json) (key : String) (fs : List (ObjectType × Field)) : List Json :=
  if key = "AttributeDefinitions" then
    stringAttribute "id" :: fs.map fun x => stringAttribute (keyName x)
  else fs.map (index throughput)

lemma listedFor_append_isPrefix (throughput : Json) (key : String)
    (fs gs : List (ObjectType × Field)) :
    listedFor throughput key fs <+: listedFor throughput key (fs ++ gs) := by
  rw [listedFor, listedFor, List.map_append, List.map_append]
  split
  · exact List.prefix_append (_ :: _) _
  · exact List.prefix_append _ _

lemma listedFor_perm (throughput : Json) (key : String) {fs gs : List (ObjectType × Field)}
    (h : fs.Perm gs) : (listedFor throughput key fs).Perm (listedFor throughput key gs) := by
  rw [listedFor, listedFor]
  split
  · exact (h.map _).cons _
  · exact h.map _

lemma Indexed.exists_lists {s : Schema} {d : Document} {type : String} (h : Indexed s d type) :
    ∃ throughput, d.property? (type ++ "Table") "ProvisionedThroughput" = some throughput ∧
      ∀ key ∈ listKeys,
        d.Lists (type ++ "Table") key (listedFor throughput key (s.listFields type)) := by
  obtain ⟨_, ⟨throughput, hthroughput, hindexes⟩, hattributes, _⟩ := h
  refine ⟨throughput, hthroughput, fun key hkey => ?_⟩
  rcases List.mem_pair.mp hkey with rfl | rfl
  · exact hattributes
  · have hvalues : listedFor throughput "GlobalSecondaryIndexes" (s.listFields type) =
        (s.listFields type).map (index throughput) := if_neg (by decide)
    rw [Document.Lists, hvalues, List.isEmpty_map]
    exact hindexes

end Indexing

lemma Connection.Rewritten.eq_or_mem_listKeys {s : Schema} {id key : String}
    (h : Rewritten s id key) : (id = Api.schemaId ∧ key = "Definition") ∨
      key ∈ Indexing.listKeys ∧ ∃ o ∈ s.modelTypes, id = o.name ++ "Table" := by
  cases h with
  | definition => exact Or.inl ⟨rfl, rfl⟩
  | attributes ho => exact Or.inr ⟨by simp [Indexing.listKeys], _, ho, rfl⟩
  | indexes ho => exact Or.inr ⟨by simp [Indexing.listKeys], _, ho, rfl⟩

namespace Pipeline

variable {c : BuildConfig} {p : Pipeline} {s s' : Schema} {d d' : Document}

/-- Tables list what the fields of either schema call for, with the same throughput. -/
lemma exists_lists_of_subset (hp : standard c = .ok p) (included : s.objects ⊆ s'.objects)
    (distinct : (s.objects.map ObjectType.name).Nodup)
    (distinct' : (s'.objects.map ObjectType.name).Nodup) (compiled : p.compileSchema s = .ok d)
    (compiled' : p.compileSchema s' = .ok d') {o : ObjectType} (ho : o ∈ s.modelTypes) :
    ∃ throughput, ∀ key ∈ Indexing.listKeys,
      d.Lists (o.name ++ "Table") key (Indexing.listedFor throughput key (s.listFields o.name)) ∧
      d'.Lists (o.name ++ "Table") key (Indexing.listedFor throughput key (s'.listFields o.name)) := by
  obtain ⟨rs, assembled⟩ := assembled_of_compileSchema hp distinct compiled
  obtain ⟨rs', assembled'⟩ := assembled_of_compileSchema hp distinct' compiled'
  have indexed := indexed_of_compileSchema hp distinct compiled ho
  have indexed' := indexed_of_compileSchema hp distinct' compiled'
    (Schema.modelTypes_subset included ho)
  have hid : o.name ++ "Table" ∈ d.ids := by
    rw [← d.map_fst_outline]
    exact List.mem_map_of_mem indexed.table
  have kept : ¬ Connection.Rewritten s' (o.name ++ "Table") "ProvisionedThroughput" := by
    intro h
    rcases h.eq_or_mem_listKeys with ⟨_, hkey⟩ | ⟨hkey, _⟩ <;> revert hkey <;> decide
  have hsame := assembled.property?_eq_of_subset included distinct distinct' assembled' hid kept
  obtain ⟨throughput, hthroughput, hlists⟩ := indexed.exists_lists
  obtain ⟨throughput', hthroughput', hlists'⟩ := indexed'.exists_lists
  obtain rfl : throughput = throughput' :=
    Option.some.inj (hthroughput.symm.trans (hsame.symm.trans hthroughput'))
  exact ⟨throughput, fun key hkey => ⟨hlists key hkey, hlists' key hkey⟩⟩

end Pipeline

end SchemaStack
