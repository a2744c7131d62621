import SchemaStack.Proofs.Directive.Models
import Mathlib.Data.List.Forall2
/-!
# The build after the relations

Relations are resolved field by field, so they stand in the order of the fields and each joins the
type of its field to a model type. The build that they leave has one more resolver for each, and
differs from the one before in nothing else but the tables that are read by an index.
-/

namespace SchemaStack

namespace Schema

/-- The fields with `@connection` and their types, in declaration order. -/
def connectionFields (s : Schema) : List (ObjectType × Field) :=
  s.objects.flatMap fun o =>
    (o.fields.filter fun f => (f.directive? "connection").isSome).map (o, ·)

lemma mem_connectionFields {s : Schema} {o : ObjectType} {f : Field} :
    (o, f) ∈ s.connectionFields ↔
      o ∈ s.objects ∧ f ∈ o.fields ∧ (f.directive? "connection").isSome := by
  simp [connectionFields]

end Schema

namespace Connection

/-! ## Resolving -/

/-- What a resolved relation has to do with its field. -/
structure Joins (a : Artifacts) (o : ObjectType) (f : Field) (r : Relation) : Prop where
  parent : r.parent = o.name
  field : r.field = f.name
  target : ∃ t, a.types.get? f.type.base = some t ∧ r.target = t.name
  owner : ∃ m, a.model? o.name = some m
  model : ∃ m, a.model? f.type.base = some m

lemma eq_relation_of_resolveList {o target : ObjectType} {f : Field} {name : Option String}
    {r : Relation} (h : resolveList o target f name = .ok r) :
    r = resolveList.relation o target f name := by
  rw [resolveList] at h
  split at h
  · split at h
    · cases h
    · exact (Except.ok.inj h).symm
  · exact (Except.ok.inj h).symm

lemma exists_key_of_resolveSingle {o target : ObjectType} {f : Field} {name : Option String}
    {r : Relation} (h : resolveSingle o target f name = .ok r) :
    ∃ key, r = ⟨o.name, f.name, target.name, key, none⟩ := by
  cases name with
  | none => exact ⟨_, (Except.ok.inj h).symm⟩
  | some n =>
    change (pairedList? target o.name n target.fields >>= _) = _ at h
    obtain ⟨paired, _, h⟩ := bind_eq_ok h
    exact ⟨_, (Except.ok.inj h).symm⟩

lemma joins_of_resolve {a : Artifacts} {o : ObjectType} {f : Field} {r : Relation}
    (h : resolve a o f = .ok r) : Joins a o f r := by
  rw [resolve] at h
  split at h
  · cases h
  · rename_i m hm
    split at h
    · rename_i m' target hm' htarget
      obtain ⟨name, _, h⟩ := bind_eq_ok h
      split at h
      · rw [eq_relation_of_resolveList h]
        exact ⟨rfl, rfl, ⟨target, htarget, rfl⟩, ⟨m, hm⟩, ⟨m', hm'⟩⟩
      · obtain ⟨key, rfl⟩ := exists_key_of_resolveSingle h
        exact ⟨rfl, rfl, ⟨target, htarget, rfl⟩, ⟨m, hm⟩, ⟨m', hm'⟩⟩
    · cases h

/-- The relations are those of the first field and of the rest, whichever indexes are taken. -/
lemma exists_of_relationsFrom_cons {a : Artifacts} {owners : List ((String × String) × String)}
    {o : ObjectType} {f : Field} {fs : List (ObjectType × Field)} {rs : List Relation}
    (h : relationsFrom a owners ((o, f) :: fs) = .ok rs) :
    ∃ r, resolve a o f = .ok r ∧
      ∃ owners' rs', relationsFrom a owners' fs = .ok rs' ∧ rs = r :: rs' := by
  rw [relationsFrom] at h
  obtain ⟨r, hr, h⟩ := bind_eq_ok h
  refine ⟨r, hr, ?_⟩
  cases hindex : r.index with
  | none =>
    simp only [hindex] at h
    obtain ⟨rs', hrs', h⟩ := bind_eq_ok h
    exact ⟨_, rs', hrs', (Except.ok.inj h).symm⟩
  | some index =>
    simp only [hindex] at h
    split at h
    · cases h
    · obtain ⟨rs', hrs', h⟩ := bind_eq_ok h
      exact ⟨_, rs', hrs', (Except.ok.inj h).symm⟩

/-- The relations are those of the fields, one for one. -/
lemma forall₂_of_relationsFrom {a : Artifacts} {owners : List ((String × String) × String)}
    {fs : List (ObjectType × Field)} {rs : List Relation}
    (h : relationsFrom a owners fs = .ok rs) :
    List.Forall₂ (fun x r => resolve a x.1 x.2 = .ok r) fs rs := by
  induction fs generalizing owners rs with
  | nil =>
    obtain rfl := Except.ok.inj h
    exact .nil
  | cons x fs ih =>
    obtain ⟨r, hr, owners', rs', hfs, rfl⟩ := exists_of_relationsFrom_cons h
    exact .cons hr (ih hfs)

lemma fields_registered (s : Schema) : fields (Model.registered s) = s.connectionFields := by
  change (Model.registered s).objectTypes.flatMap _ = _
  exact congrArg (List.flatMap _) (Api.objectTypes_registered s)

/-- The relations of a schema are those of its fields, one for one. -/
lemma forall₂_of_relations {s : Schema} {rs : List Relation}
    (h : relations (Model.registered s) = .ok rs) :
    List.Forall₂ (fun x r => resolve (Model.registered s) x.1 x.2 = .ok r)
      s.connectionFields rs := by
  have hall := forall₂_of_relationsFrom h
  rwa [fields_registered] at hall

/-- The resolvers of the relations stand in the order of the fields. -/
lemma map_resolverId_of_relations {s : Schema} {rs : List Relation}
    (h : relations (Model.registered s) = .ok rs) :
    rs.map resolverId =
      s.connectionFields.map fun x => x.1.name ++ Text.upperFirst x.2.name ++ "Resolver" := by
  refine List.forall₂_eq_eq_eq ▸ List.forall₂_map_left_iff.mpr (List.forall₂_map_right_iff.mpr ?_)
  refine (forall₂_of_relations h).flip.imp fun r x hres => ?_
  obtain ⟨hparent, hfield, _, _, _⟩ := joins_of_resolve hres
  rw [resolverId, hparent, hfield]

/-- Relations between model types of a schema, each of a field with `@connection`. -/
def Resolved (s : Schema) (rs : List Relation) : Prop :=
  ∀ r ∈ rs, ∃ o ∈ s.modelTypes, ∃ f ∈ o.fields, (f.directive? "connection").isSome ∧
    r.parent = o.name ∧ r.field = f.name ∧ r.target = f.type.base ∧
    ∃ t ∈ s.modelTypes, t.name = r.target

lemma resolved_nil (s : Schema) : Resolved s [] := by
  intro r hr
  cases hr

/-- What stands in one of two related lists has a partner in the other. -/
lemma exists_of_mem_forall₂ {α β : Type} {R : α → β → Prop} {xs : List α} {ys : List β}
    (hall : List.Forall₂ R xs ys) {y : β} (hy : y ∈ ys) : ∃ x ∈ xs, R x y := by
  induction hall with
  | nil => cases hy
  | cons hx _ ih =>
    rcases List.mem_cons.mp hy with rfl | hy
    · exact ⟨_, List.mem_cons_self, hx⟩
    · obtain ⟨x, hmem, hR⟩ := ih hy
      exact ⟨x, List.mem_cons_of_mem _ hmem, hR⟩

lemma resolved_of_relations {s : Schema} (distinct : (s.objects.map ObjectType.name).Nodup)
    {rs : List Relation} (h : relations (Model.registered s) = .ok rs) : Resolved s rs := by
  intro r hr
  obtain ⟨⟨o, f⟩, hmem, hresolve⟩ := exists_of_mem_forall₂ (forall₂_of_relations h) hr
  obtain ⟨ho, hf, hdirective⟩ := Schema.mem_connectionFields.mp hmem
  obtain ⟨hparent, hfield, ⟨t, ht, htarget⟩, ⟨m, hm⟩, ⟨m', hm'⟩⟩ := joins_of_resolve hresolve
  obtain ⟨⟨o', ho', hname⟩, _⟩ := Model.model?_registered.mp hm
  obtain ⟨⟨t', ht', hname'⟩, _⟩ := Model.model?_registered.mp hm'
  have hsame : o' = o :=
    Schema.eq_of_name_eq distinct (Schema.mem_modelTypes.mp ho').1 ho hname
  have hbase : t.name = f.type.base := ((Api.types_registered distinct).mp ht).2
  subst hsame
  exact ⟨o', ho', f, hf, hdirective, hparent, hfield, htarget.trans hbase,
    t', ht', hname'.trans (hbase.symm.trans htarget.symm)⟩

/-- Every field with `@connection` has its relation. -/
lemma exists_relation {s : Schema} {rs : List Relation}
    (h : relations (Model.registered s) = .ok rs) {o : ObjectType} {f : Field}
    (hx : (o, f) ∈ s.connectionFields) : ∃ r ∈ rs, Joins (Model.registered s) o f r := by
  obtain ⟨r, hr, hresolve⟩ := exists_of_mem_forall₂ (forall₂_of_relations h).flip hx
  exact ⟨r, hr, joins_of_resolve hresolve⟩

/-! ## What the relations contribute -/

lemma entries_registered {s : Schema} {rs : List Relation} (resolved : Resolved s rs) :
    entries (Model.registered s) rs =
      rs.map fun r => (resolverId r, resolverResource r (Model.ofType r.target)) := by
  refine List.filterMap_eq_map_iff_forall_eq_some.mpr fun r hr => ?_
  obtain ⟨_, _, _, _, _, _, _, _, t, ht, htarget⟩ := resolved r hr
  have hmodel : (Model.registered s).model? r.target = some (Model.ofType r.target) :=
    Model.model?_registered.mpr ⟨⟨t, ht, htarget⟩, rfl⟩
  rw [hmodel]
  rfl

lemma of_mem_entries {a : Artifacts} {rs : List Relation} {e : String × Resource}
    (he : e ∈ entries a rs) :
    ∃ r ∈ rs, ∃ m, a.model? r.target = some m ∧ e = (resolverId r, resolverResource r m) := by
  obtain ⟨r, hr, he⟩ := List.mem_filterMap.mp he
  obtain ⟨m, hm, rfl⟩ := Option.map_eq_some_iff.mp he
  exact ⟨r, hr, m, hm, rfl⟩

lemma type_resolverResource (r : Relation) (m : Model) :
    (resolverResource r m).type = .resolver := by
  rw [resolverResource]
  split <;> rfl

lemma source_resolverResource (r : Relation) (m : Model) :
    (resolverResource r m).property? "DataSourceName" =
      some (attributeOf m.dataSource "Name") := by
  rw [resolverResource]
  split <;> rfl

/-- Only tables of models get indexes. -/
lemma mem_keys_foldl_addIndex {d : Document} {a : Artifacts} (rs : List Relation)
    {tables : Entries TableIndexes} {id : String}
    (h : id ∈ Entries.keys (rs.foldl (addIndex d a) tables)) :
    id ∈ Entries.keys tables ∨ ∃ name m, a.model? name = some m ∧ id = m.table := by
  induction rs generalizing tables with
  | nil => exact Or.inl h
  | cons r rs ih =>
    rcases ih h with hid | hid
    · rw [addIndex] at hid
      split at hid
      · rename_i index m _ hm
        rw [Entries.keys_insert] at hid
        split at hid
        · exact Or.inl hid
        · refine (List.mem_append.mp hid).imp_right fun hid => ⟨r.target, m, hm, ?_⟩
          exact List.mem_singleton.mp hid
      · exact Or.inl hid
    · exact Or.inr hid

lemma table_of_mem_keys_addIndex {d : Document} {s : Schema} {rs : List Relation} {id : String}
    (h : id ∈ Entries.keys (rs.foldl (addIndex d (Model.registered s)) [])) :
    ∃ o ∈ s.modelTypes, id = Model.Part.table.id o.name := by
  rcases mem_keys_foldl_addIndex rs h with h | ⟨name, m, hm, rfl⟩
  · cases h
  · obtain ⟨⟨o, ho, rfl⟩, rfl⟩ := Model.model?_registered.mp hm
    exact ⟨o, ho, rfl⟩

def contribution (name : String) (config : BuildConfig) (s : Schema) (rs : List Relation) :
    Contribution where
  entries := entries (Model.registered s) rs
  amendments :=
    amendments (rs.foldl (addIndex (Model.built name config s).document (Model.registered s)) [])

lemma target_of_mem_amendments {name : String} {config : BuildConfig} {s : Schema}
    {rs : List Relation} {a : Amendment} (h : a ∈ (contribution name config s rs).amendments) :
    ∃ o ∈ s.modelTypes, a.target = Model.Part.table.id o.name := by
  obtain ⟨⟨table, t⟩, ht, ha⟩ := List.mem_flatMap.mp h
  have htable := table_of_mem_keys_addIndex (List.mem_map.mpr ⟨(table, t), ht, rfl⟩)
  simp only [List.mem_cons, List.not_mem_nil, or_false] at ha
  rcases ha with rfl | rfl
  · exact htable
  · exact htable

/-- The artifacts once the resolvers of the relations are registered. -/
def registered (s : Schema) (rs : List Relation) : Artifacts :=
  (entries (Model.registered s) rs).foldl (fun a e => a.registerConnection e.1)
    (Model.registered s)

/-- The build once the relations are in. -/
def built (name : String) (config : BuildConfig) (s : Schema) (rs : List Relation) : Context :=
  { Model.built name config s with artifacts := registered s rs }.merged "connection"
    (contribution name config s rs)

/-- A build without relations is the one that it starts from. -/
lemma built_nil (name : String) (config : BuildConfig) (s : Schema) :
    built name config s [] = Model.built name config s := by
  have hresources : ∀ d : Document, ({ d with resources := d.resources ++ [] } : Document) = d :=
    fun d => by rw [List.append_nil]
  change ({ Model.built name config s with
    document := { (Model.built name config s).document with
      resources := (Model.built name config s).document.resources ++ [] }
    owners := (Model.built name config s).owners ++ [] } : Context) = _
  rw [hresources, List.append_nil]

lemma accepts_nil (name : String) (config : BuildConfig) (s : Schema) :
    (Model.built name config s).Accepts (contribution name config s []) where
  fresh := by
    intro id hid
    exact absurd hid List.not_mem_nil
  distinct := List.nodup_nil
  reached := by
    intro a ha
    exact absurd ha List.not_mem_nil

lemma step_stage (name : String) (config : BuildConfig) (s : Schema) :
    Pipeline.step (Model.built name config s) stage =
      match relations (Model.registered s) with
      | .error e => .error (.schema e)
      | .ok rs =>
        ({ Model.built name config s with artifacts := registered s rs } : Context).merge
          "connection" (contribution name config s rs) := by
  cases hr : relations (Model.registered s) with
  | error e =>
    have hk : contribute (Model.built name config s) = .error (.schema e) := by
      change relations (Model.built name config s).artifacts = _ at hr
      rw [contribute, hr]
    change (contribute (Model.built name config s)).bind _ = _
    rw [hk]
    rfl
  | ok rs =>
    have hk : contribute (Model.built name config s) =
        .ok (registered s rs, contribution name config s rs) := by
      change relations (Model.built name config s).artifacts = _ at hr
      rw [contribute, hr]
      rfl
    exact Pipeline.step_eq stage hk

lemma step_stage_eq_ok_iff {name : String} {config : BuildConfig} {s : Schema} {c : Context} :
    Pipeline.step (Model.built name config s) stage = .ok c ↔
      ∃ rs, relations (Model.registered s) = .ok rs ∧
        (Model.built name config s).Accepts (contribution name config s rs) ∧
        c = built name config s rs := by
  rw [step_stage]
  constructor
  · intro h
    cases hr : relations (Model.registered s) with
    | error e =>
      rw [hr] at h
      cases h
    | ok rs =>
      rw [hr] at h
      obtain ⟨accepts, rfl⟩ := Context.merge_eq_ok_iff.mp h
      exact ⟨rs, rfl, ⟨accepts.fresh, accepts.distinct, accepts.reached⟩, rfl⟩
  · rintro ⟨rs, hr, accepts, rfl⟩
    rw [hr]
    exact Context.merge_eq_ok_iff.mpr
      ⟨⟨accepts.fresh, accepts.distinct, accepts.reached⟩, rfl⟩

/-- The relations never amend what is not there, so a fault is one of the schema or a resolver
whose ID is taken. -/
lemma step_stage_eq_error {name : String} {config : BuildConfig} {s : Schema} {e : BuildError}
    (h : Pipeline.step (Model.built name config s) stage = .error e) :
    (∃ x, e = .schema x) ∨ ∃ id first, e = .collision id first "connection" := by
  rw [step_stage] at h
  cases hr : relations (Model.registered s) with
  | error x =>
    rw [hr] at h
    exact Or.inl ⟨x, (Except.error.inj h).symm⟩
  | ok rs =>
    rw [hr] at h
    rcases Context.merge_eq_error h with hentries | ⟨_, hamendments⟩
    · obtain ⟨_, id, _, _, _, _, _, he⟩ := Context.checkEntries_eq_error hentries
      exact Or.inr ⟨id, _, he⟩
    · obtain ⟨before, a, after, hsplit, _, hmissing, _⟩ :=
        Context.checkAmendments_eq_error hamendments
      obtain ⟨o, ho, htarget⟩ := target_of_mem_amendments (a := a) (by rw [hsplit]; simp)
      exact absurd (htarget ▸ Model.mem_ids_built_part name config ho .table) hmissing

/-- Registering resolvers leaves the types and the models alone. -/
lemma foldl_registerConnection (es : List (String × Resource)) (a : Artifacts) :
    es.foldl (fun a e => a.registerConnection e.1) a =
      { a with connections := a.connections ++ Entries.keys es } := by
  induction es generalizing a with
  | nil =>
    rw [List.foldl_nil, Entries.keys_nil, List.append_nil]
  | cons e es ih =>
    rw [List.foldl_cons, ih, Entries.keys_cons, List.append_cons]
    rfl

lemma model?_built (name : String) (config : BuildConfig) (s : Schema) (rs : List Relation)
    (type : String) :
    (built name config s rs).artifacts.model? type = (Model.registered s).model? type := by
  change (registered s rs).model? type = _
  rw [registered, foldl_registerConnection]
  rfl

lemma objectTypes_built (name : String) (config : BuildConfig) (s : Schema)
    (rs : List Relation) : (built name config s rs).artifacts.objectTypes = s.objects := by
  change (registered s rs).objectTypes = _
  rw [registered, foldl_registerConnection, ← Api.objectTypes_registered s]
  rfl

/-! ## The document of the relations -/

lemma resolverId_ne_table (r : Relation) (type : String) :
    resolverId r ≠ Model.Part.table.id type :=
  append_ne_append (by decide) (by decide) _ _

lemma outline_built (name : String) (config : BuildConfig) {s : Schema} {rs : List Relation}
    (resolved : Resolved s rs) :
    (built name config s rs).document.outline =
      (Model.built name config s).document.outline ++
        rs.map fun r => (resolverId r, ResourceType.resolver) := by
  have houtline : outlineOf (contribution name config s rs).entries =
      rs.map fun r => (resolverId r, ResourceType.resolver) := by
    rw [contribution, entries_registered resolved, outlineOf, List.map_map]
    refine List.map_congr_left fun r _ => ?_
    rw [Function.comp_apply, type_resolverResource]
  rw [← houtline]
  exact Context.outline_apply _ _

lemma mem_ids_built {name : String} {config : BuildConfig} {s : Schema} {rs : List Relation}
    {id : String} (h : id ∈ (Model.built name config s).document.ids) :
    id ∈ (built name config s rs).document.ids := by
  change id ∈ (Context.apply _ _).ids
  rw [Context.ids_apply]
  exact List.mem_append_left _ h

lemma get?_built (name : String) (config : BuildConfig) (s : Schema) (rs : List Relation)
    (id : String) :
    (built name config s rs).document.get? id =
      (((Model.built name config s).document.get? id).or
        (Entries.get? (entries (Model.registered s) rs) id)).map
          (Context.amended (contribution name config s rs).amendments id) :=
  Context.get?_apply _ _ _

/-- What is no table is as the model types left it. -/
lemma get?_built_of_ne_table {name : String} {config : BuildConfig} {s : Schema}
    {rs : List Relation} {id : String} {r : Resource}
    (h : (Model.built name config s).document.get? id = some r)
    (notTable : ∀ o ∈ s.modelTypes, id ≠ Model.Part.table.id o.name) :
    (built name config s rs).document.get? id = some r := by
  rw [get?_built, h]
  refine congrArg some (Context.amended_of_untargeted (fun a ha heq => ?_) r)
  obtain ⟨o, ho, htarget⟩ := target_of_mem_amendments ha
  exact notTable o ho (heq.symm.trans htarget)

lemma get?_built_resolver (name : String) (config : BuildConfig) {s : Schema}
    (distinct : (s.objects.map ObjectType.name).Nodup) (rs : List Relation) {o : ObjectType}
    (ho : o ∈ s.modelTypes) (op : Operation) :
    (built name config s rs).document.get? (op.resolverId o.name) =
      some ((Model.ofType o.name).resolverResource op) := by
  refine get?_built_of_ne_table
    (Model.get?_built_part name config distinct ho (.resolver op)) fun o' _ heq => ?_
  have hpart : (Model.Part.resolver op).id o.name = Model.Part.table.id o'.name := heq
  exact absurd (Model.Part.id_injective hpart).1 (by simp)

lemma mem_entries_contribution (name : String) (config : BuildConfig) {s : Schema}
    {rs : List Relation} (resolved : Resolved s rs) {r : Relation} (hr : r ∈ rs) :
    (resolverId r, resolverResource r (Model.ofType r.target)) ∈
      (contribution name config s rs).entries := by
  rw [contribution, entries_registered resolved]
  exact List.mem_map.mpr ⟨r, hr, rfl⟩

/-- The relations are accepted where the IDs of their resolvers are new and distinct. -/
lemma accepts_contribution_iff {name : String} {config : BuildConfig} {s : Schema}
    {rs : List Relation} (resolved : Resolved s rs) :
    (Model.built name config s).Accepts (contribution name config s rs) ↔
      (rs.map resolverId).Nodup ∧
        ∀ r ∈ rs, resolverId r ∉ (Model.built name config s).document.ids := by
  have hids : (contribution name config s rs).ids = rs.map resolverId := by
    rw [Contribution.ids, contribution, entries_registered resolved]
    exact List.map_map
  have reached : ∀ a ∈ (contribution name config s rs).amendments,
      a.target ∈ (Model.built name config s).document.ids := by
    intro a ha
    obtain ⟨o, ho, htarget⟩ := target_of_mem_amendments ha
    exact htarget ▸ Model.mem_ids_built_part name config ho .table
  rw [Context.accepts_iff, hids, Model.keys_owners_built, List.forall_mem_map]
  constructor
  · rintro ⟨fresh, distinct, _⟩
    exact ⟨distinct, fresh⟩
  · rintro ⟨distinct, fresh⟩
    exact ⟨fresh, distinct, reached⟩

lemma resolverId_notMem {name : String} {config : BuildConfig} {s : Schema} {rs : List Relation}
    (resolved : Resolved s rs)
    (accepts : (Model.built name config s).Accepts (contribution name config s rs)) {r : Relation}
    (hr : r ∈ rs) : resolverId r ∉ (Model.built name config s).document.ids :=
  ((accepts_contribution_iff resolved).mp accepts).2 r hr

/-- Where the relations are accepted, the resolver of each stands in the document. -/
lemma get?_built_relation {name : String} {config : BuildConfig} {s : Schema}
    {rs : List Relation} (resolved : Resolved s rs)
    (accepts : (Model.built name config s).Accepts (contribution name config s rs)) {r : Relation}
    (hr : r ∈ rs) :
    (built name config s rs).document.get? (resolverId r) =
      some (resolverResource r (Model.ofType r.target)) := by
  have hentry := mem_entries_contribution name config resolved hr
  have huntargeted : ∀ a ∈ (contribution name config s rs).amendments,
      a.target ≠ resolverId r := by
    intro a ha heq
    obtain ⟨o, _, htable⟩ := target_of_mem_amendments ha
    exact resolverId_ne_table r o.name (heq.symm.trans htable)
  have hnone : (Model.built name config s).document.get? (resolverId r) = none :=
    Entries.get?_eq_none_iff.mpr (resolverId_notMem resolved accepts hr)
  rw [get?_built, hnone, Option.none_or]
  exact (congrArg _ (Entries.get?_of_mem accepts.distinct hentry)).trans
    (congrArg some (Context.amended_of_untargeted huntargeted _))

/-- A resolver serves an operation on a model type or a relation. -/
lemma get?_built_cases {name : String} {config : BuildConfig} {s : Schema}
    (distinct : (s.objects.map ObjectType.name).Nodup) {rs : List Relation}
    (resolved : Resolved s rs) {id : String} {r : Resource}
    (h : (built name config s rs).document.get? id = some r) (hr : r.type = .resolver) :
    (∃ o ∈ s.modelTypes, ∃ op : Operation, id = op.resolverId o.name ∧
      r = (Model.ofType o.name).resolverResource op) ∨
      ∃ rel ∈ rs, id = resolverId rel ∧ r = resolverResource rel (Model.ofType rel.target) := by
  rw [get?_built] at h
  cases hmodel : (Model.built name config s).document.get? id with
  | some r' =>
    rw [hmodel] at h
    obtain rfl := Option.some.inj h
    rw [Context.type_amended] at hr
    rcases Model.get?_built_cases distinct hmodel with ⟨_, hne⟩ | ⟨o, ho, part, rfl, rfl⟩
    · exact absurd hr hne
    · cases part with
      | resolver op =>
        have hsame := get?_built_resolver name config distinct rs ho op
        rw [get?_built] at hsame
        change (((Model.built name config s).document.get?
          ((Model.Part.resolver op).id o.name)).or _).map _ = _ at hsame
        rw [hmodel] at hsame
        exact Or.inl ⟨o, ho, op, rfl, Option.some.inj hsame⟩
      | table => cases hr
      | role => cases hr
      | dataSource => cases hr
  | none =>
    rw [hmodel, Option.none_or, entries_registered resolved] at h
    obtain ⟨r', hentry, rfl⟩ := Option.map_eq_some_iff.mp h
    obtain ⟨rel, hrel, heq⟩ := List.mem_map.mp (Entries.mem_of_get? hentry)
    obtain ⟨rfl, rfl⟩ := Prod.mk.inj heq
    refine Or.inr ⟨rel, hrel, rfl, Context.amended_of_untargeted (fun a ha htarget => ?_) _⟩
    obtain ⟨o, _, htable⟩ := target_of_mem_amendments ha
    exact resolverId_ne_table rel o.name (htarget.symm.trans htable)

end Connection

end SchemaStack
