import SchemaStack.Proofs.Build.Atomicity
import SchemaStack.Proofs.Directive.Pairing
import SchemaStack.Proofs.Directive.Reordering
/-!
# Relations that are accepted

The relations of a schema are resolved field by field, each with a look at the fields of its target.
What has to hold for this to succeed can be said of the fields with `@connection` alone: each can be
read and joins model types, no two lists cross, and no two lists take one index. Resolvers are
registered once all fields are resolved, so a schema that is refused has none registered.
-/

namespace SchemaStack

namespace Connection

open Indexing

/-- Lists of different types that have one name for their relations and hold each other's items. -/
structure Crossed (x y : ObjectType × Field) : Prop where
  list : x.2.type.isList = true
  list' : y.2.type.isList = true
  types : x.1.name ≠ y.1.name
  target : x.2.type.base = y.1.name
  items : y.2.type.base = x.1.name
  name : ∃ n, x.2.connectionName? = some n ∧ y.2.connectionName? = some n

/-- The relations of a schema are such as can be resolved. -/
structure Acceptable (s : Schema) : Prop where
  arguments : ∀ x ∈ s.connectionFields, Readable x.2
  models : ∀ x ∈ s.connectionFields,
    x.1 ∈ s.modelTypes ∧ ∃ t ∈ s.modelTypes, t.name = x.2.type.base
  uncrossed : ∀ x ∈ s.connectionFields, ∀ y ∈ s.connectionFields, ¬ Crossed x y
  /-- No index of a table is taken by two lists. -/
  indexes : ((s.connectionFields.filter fun x => x.2.type.isList).map fun x =>
    (x.2.type.base, indexName x)).Nodup

/-! ## Lists -/

lemma pointsBack_eq_any {target : ObjectType} (readable : ∀ g ∈ target.fields, Readable g)
    (parent name : String) :
    pointsBack target parent name = target.fields.any (answers parent name) := by
  rw [pointsBack, Bool.eq_iff_iff, List.any_eq_true, List.any_eq_true]
  refine exists_congr fun g => and_congr_right fun hg => ?_
  rw [name?_eq_ok_iff.mpr ⟨readable g hg, rfl⟩, answers]
  cases g.connectionName? <;> simp

/-- A list has its relation unless a list of another type answers. -/
lemma resolveList_eq_ok_iff {target : ObjectType} (readable : ∀ g ∈ target.fields, Readable g)
    {o : ObjectType} {f : Field} (base : target.name = f.type.base) {r : Relation} :
    resolveList o target f f.connectionName? = .ok r ↔
      r = listRelation (o, f) ∧ (target.name ≠ o.name →
        ∀ n, f.connectionName? = some n → ∀ g ∈ target.fields, answers o.name n g ≠ true) := by
  have hrelation : resolveList.relation o target f f.connectionName? = listRelation (o, f) := by
    rw [resolveList.relation, base]
    rfl
  rw [resolveList, hrelation]
  cases f.connectionName? with
  | none =>
    rw [Option.filter_none]
    dsimp only
    rw [Except.ok.injEq, eq_comm]
    refine (and_iff_left fun _ n hn => ?_).symm
    cases hn
  | some n =>
    rw [Option.filter_some, pointsBack_eq_any readable]
    by_cases hany : target.fields.any (answers o.name n) = true
    · obtain ⟨g, hg, hanswers⟩ := List.any_eq_true.mp hany
      rw [if_pos hany]
      dsimp only
      split
      · rename_i hne
        refine iff_of_false (by simp [fail]) fun h => ?_
        exact h.2 hne n rfl g hg hanswers
      · rename_i hself
        rw [Except.ok.injEq, eq_comm]
        exact (and_iff_left fun hne => absurd hne hself).symm
    · have hfree : ∀ g ∈ target.fields, answers o.name n g ≠ true := by
        simpa [List.any_eq_true] using hany
      rw [if_neg hany]
      dsimp only
      rw [Except.ok.injEq, eq_comm]
      refine (and_iff_left fun _ n' hn' => ?_).symm
      obtain rfl := Option.some.inj hn'
      exact hfree

section Acceptance

variable {s : Schema} (distinct : (s.objects.map ObjectType.name).Nodup)
include distinct

/-- The indexes that are taken are those of the lists. -/
lemma filterMap_taken?_of_forall₂ {fs : List (ObjectType × Field)} {rs : List Relation}
    (h : List.Forall₂ (fun x r => resolve (Model.registered s) x.1 x.2 = .ok r) fs rs) :
    rs.filterMap taken? =
      (fs.filter fun x => x.2.type.isList).map fun x => (x.2.type.base, indexName x) := by
  induction h with
  | nil => rfl
  | @cons x r fs rs hx _ ih =>
    have hr := relation_of_resolve distinct hx
    cases hlist : x.2.type.isList with
    | true =>
      rw [hlist, if_pos rfl] at hr
      rw [List.filter_cons_of_pos (by simpa using hlist), hr, List.map_cons, ← ih]
      rfl
    | false =>
      rw [hlist, if_neg Bool.false_ne_true] at hr
      have htaken : taken? r = none := by rw [taken?, hr]; rfl
      rw [List.filter_cons_of_neg (by simp [hlist]), List.filterMap_cons_none htaken, ih]

/-! ## Soundness -/

lemma acceptable_of_relations {rs : List Relation}
    (h : relations (Model.registered s) = .ok rs) : Acceptable s := by
  have resolved := fun x hx => exists_resolved h (x := x) hx
  simp only [resolve_eq_ok_iff distinct] at resolved
  refine ⟨fun x hx => ?_, fun x hx => ?_, fun x hx y hy crossed => ?_, ?_⟩
  · obtain ⟨_, _, _, readable, _⟩ := resolved x hx
    exact readable
  · obtain ⟨_, _, ⟨t, ht, hname⟩, _, target, htarget, hbase, _⟩ := resolved x hx
    have howner : t = x.1 := Schema.eq_of_name_eq distinct (Schema.mem_modelTypes.mp ht).1
      (Schema.mem_connectionFields.mp hx).1 hname
    exact ⟨howner ▸ ht, target, htarget, hbase⟩
  · obtain ⟨_, _, _, _, target, htarget, hbase, hlist⟩ := resolved x hx
    obtain ⟨hy₁, hy₂, _⟩ := Schema.mem_connectionFields.mp hy
    have htype := (Schema.mem_modelTypes.mp htarget).1
    obtain rfl : target = y.1 :=
      Schema.eq_of_name_eq distinct htype hy₁ (hbase.trans crossed.target)
    rw [if_pos crossed.list, resolveList_eq_ok_iff
      (fun g => readable_of_relations distinct h htype) hbase] at hlist
    obtain ⟨n, hn, hn'⟩ := crossed.name
    exact hlist.2 crossed.types.symm n hn y.2 hy₂
      (answers_iff.mpr ⟨crossed.list', crossed.items, hn'⟩)
  · rw [← filterMap_taken?_of_forall₂ distinct (forall₂_of_relations h)]
    exact (nodup_taken_of_relationsFrom h).1

/-! ## Completeness -/

lemma Acceptable.exists_resolve (acceptable : Acceptable s) {x : ObjectType × Field}
    (hx : x ∈ s.connectionFields) : ∃ r, resolve (Model.registered s) x.1 x.2 = .ok r := by
  obtain ⟨owner, target, htarget, hbase⟩ := acceptable.models x hx
  have htype := (Schema.mem_modelTypes.mp htarget).1
  have readable : ∀ g ∈ target.fields, Readable g :=
    fun g => readable_of_connectionFields acceptable.arguments htype
  have resolves : ∃ r, (if x.2.type.isList then resolveList x.1 target x.2 x.2.connectionName?
      else resolveSingle x.1 target x.2 x.2.connectionName?) = .ok r := by
    split
    · rename_i hlist
      refine ⟨_, (resolveList_eq_ok_iff readable hbase).mpr ⟨rfl, fun hne n hn g hg hanswers => ?_⟩⟩
      obtain ⟨hlist', hitems, hn'⟩ := answers_iff.mp hanswers
      have hy := mem_connectionFields_of_answers htype hg hanswers
      exact acceptable.uncrossed x hx (target, g) hy
        ⟨hlist, hlist', hne.symm, hbase.symm, hitems, n, hn, hn'⟩
    · exact ⟨_, resolveSingle_eq readable hbase⟩
  obtain ⟨r, hr⟩ := resolves
  exact ⟨r, (resolve_eq_ok_iff distinct).mpr
    ⟨⟨x.1, owner, rfl⟩, acceptable.arguments x hx, target, htarget, hbase, hr⟩⟩

lemma Acceptable.exists_relations (acceptable : Acceptable s) :
    ∃ rs, relations (Model.registered s) = .ok rs := by
  obtain ⟨rs, hall⟩ : ∃ rs, List.Forall₂
      (fun x r => resolve (Model.registered s) x.1 x.2 = .ok r) s.connectionFields rs := by
    have hresolve := fun x hx => acceptable.exists_resolve distinct (x := x) hx
    generalize s.connectionFields = fs at hresolve
    induction fs with
    | nil => exact ⟨[], .nil⟩
    | cons x fs ih =>
      obtain ⟨⟨r, hr⟩, hfs⟩ := List.forall_mem_cons.mp hresolve
      obtain ⟨rs, hrs⟩ := ih hfs
      exact ⟨r :: rs, .cons hr hrs⟩
  refine ⟨rs, relationsFrom_eq_ok_iff.mpr ⟨?_, ?_, fun _ _ => List.not_mem_nil⟩⟩
  · rwa [fields_registered]
  · rw [filterMap_taken?_of_forall₂ distinct hall]
    exact acceptable.indexes

theorem exists_relations_iff :
    (∃ rs, relations (Model.registered s) = .ok rs) ↔ Acceptable s :=
  ⟨fun ⟨_, h⟩ => acceptable_of_relations distinct h,
    fun acceptable => acceptable.exists_relations distinct⟩

end Acceptance

/-! ## Registering in place -/

/-- Registers the resolver of a relation. -/
def register (e : String × Resource) (c : Context) : Context :=
  { c with artifacts := c.artifacts.registerConnection e.1 }

/-- The contribution of the relations by a program that registers their resolvers one by one. -/
def contributeInPlace : Context.InPlace Contribution := do
  let c ← get
  let rs ← ofExcept ((relations c.artifacts).mapError BuildError.schema)
  let es := entries c.artifacts rs
  for e in es do
    modify (register e)
  return { entries := es
           amendments := amendments (rs.foldl (addIndex c.document c.artifacts) []) }

lemma foldl_register (es : List (String × Resource)) (c : Context) :
    es.foldl (fun c e => register e c) c =
      { c with artifacts := es.foldl (fun a e => a.registerConnection e.1) c.artifacts } := by
  induction es generalizing c with
  | nil => rfl
  | cons e es ih => exact ih (register e c)

/-- In place or not, the relations contribute the same, and where they fail nothing has been
registered. -/
lemma runOn_contributeInPlace (c : Context) :
    contributeInPlace.runOn c =
      match contribute c with
      | .error e => (.error e, c)
      | .ok (a, k) => (.ok k, { c with artifacts := a }) := by
  simp only [contributeInPlace, Context.InPlace.runOn_bind, Context.InPlace.runOn_get,
    Context.InPlace.runOn_ofExcept, contribute]
  cases relations c.artifacts with
  | error e => rfl
  | ok rs =>
    simp only [Except.mapError, Context.InPlace.runOn_forIn_modify, foldl_register]
    rfl

/-- The build that the stages before the relations leave. -/
lemma eq_built_of_runFrom {s : Schema} (distinct : (s.objects.map ObjectType.name).Nodup)
    {name : String} {config : BuildConfig} {c : Context}
    (h : Pipeline.runFrom (.start s) [Api.stage name, Model.stage config] = .ok c) :
    c = Model.built name config s := by
  obtain ⟨rs, founded, rfl⟩ :=
    (@Pipeline.runFrom_foundation_eq_ok_iff name config false s distinct c).mp h
  obtain rfl : rs = [] := founded.relations
  exact built_nil name config s

lemma connections_registered {s : Schema} (distinct : (s.objects.map ObjectType.name).Nodup)
    {rs : List Relation} (h : relations (Model.registered s) = .ok rs) :
    (registered s rs).connections =
      s.connectionFields.map fun x => x.1.name ++ Text.upperFirst x.2.name ++ "Resolver" := by
  rw [registered, foldl_registerConnection, ← map_resolverId_of_relations h,
    entries_registered (resolved_of_relations distinct h), Entries.keys, List.map_map]
  rfl

/-- After the API and the model types, the relations of a schema, whose types have distinct names
as in every valid one, are accepted exactly where each `@connection` can be read and joins model
types, no two lists of different types cross under one name, and no two lists take one index of a
table. They are refused as a fault of the schema with no resolver registered, and where they are
accepted the resolvers are registered in the order of the fields. -/
theorem contribute_accepts {s : Schema} (distinct : (s.objects.map ObjectType.name).Nodup)
    {name : String} {config : BuildConfig} {c : Context}
    (ran : Pipeline.runFrom (.start s) [Api.stage name, Model.stage config] = .ok c) :
    ((∃ r, contribute c = .ok r) ↔ Acceptable s) ∧
      (¬ Acceptable s → ∃ e, contribute c = .error (.schema e) ∧
        contributeInPlace.runOn c = (.error (.schema e), c)) ∧
      (Acceptable s → ∃ k c', contributeInPlace.runOn c = (.ok k, c') ∧
        contribute c = .ok (c'.artifacts, k) ∧ c.artifacts.connections = [] ∧
        c'.artifacts.connections =
          s.connectionFields.map fun x => x.1.name ++ Text.upperFirst x.2.name ++ "Resolver") := by
  obtain rfl := eq_built_of_runFrom distinct ran
  have hrun := runOn_contributeInPlace (Model.built name config s)
  have hrelations : relations (Model.built name config s).artifacts =
      relations (Model.registered s) := rfl
  rw [← exists_relations_iff distinct]
  cases hr : relations (Model.registered s) with
  | error e =>
    have hrefused : contribute (Model.built name config s) = .error (.schema e) := by
      rw [contribute, hrelations, hr]
    rw [hrefused] at hrun ⊢
    refine ⟨by simp, fun _ => ⟨e, rfl, hrun⟩, ?_⟩
    rintro ⟨_, h⟩
    cases h
  | ok rs =>
    have haccepted : contribute (Model.built name config s) =
        .ok (registered s rs, contribution name config s rs) := by
      rw [contribute, hrelations, hr]
      rfl
    rw [haccepted] at hrun ⊢
    refine ⟨by simp, fun h => absurd ⟨rs, rfl⟩ h, fun _ => ?_⟩
    exact ⟨_, _, hrun, rfl, rfl, connections_registered distinct hr⟩

/-- Posts are listed by their tag, which they know. -/
def taggedText : String :=
  "type Tag @model \x7b id: ID! posts: [Post] @connection(name: \"tagged\") \x7d " ++
    "type Post @model \x7b id: ID! tag: Tag @connection(name: tagged) \x7d"

/-- Tags and posts list each other under one name. -/
def crossedText : String :=
  "type Tag @model \x7b id: ID! posts: [Post] @connection(name: \"tagged\") \x7d " ++
    "type Post @model \x7b id: ID! tags: [Tag] @connection(name: tagged) \x7d"

/-- The stages before the relations. -/
def modelStages : List Stage := [Api.stage "press", Model.stage Pipeline.listingConfig]

theorem contribute_accepts_tagged :
    (∃ s c k c', Schema.parse taggedText = .ok s ∧
      Pipeline.runFrom (.start s) modelStages = .ok c ∧ Acceptable s ∧
      contributeInPlace.runOn c = (.ok k, c') ∧
      c'.artifacts.connections = ["TagPostsResolver", "PostTagResolver"]) ∧
    ∃ s c e, Schema.parse crossedText = .ok s ∧
      Pipeline.runFrom (.start s) modelStages = .ok c ∧ ¬ Acceptable s ∧
      contributeInPlace.runOn c = (.error (.schema e), c) := by
  constructor
  · have heval : (Schema.parse taggedText).toOption.any (fun s =>
        s.connectionFields.map (fun x => x.1.name ++ Text.upperFirst x.2.name ++ "Resolver") =
          ["TagPostsResolver", "PostTagResolver"] ∧
        ((Pipeline.runFrom (.start s) modelStages).toOption.any fun c =>
          (contribute c).toOption.isSome) = true) = true := by
      decide +kernel
    obtain ⟨s, hparse, hs⟩ := exists_of_any heval
    obtain ⟨hids, hran⟩ := of_decide_eq_true hs
    obtain ⟨c, ran, hcontribute⟩ := exists_of_any hran
    have distinct := Schema.nodup_objects (Schema.check_of_parse hparse)
    obtain ⟨hiff, _, haccepts⟩ := contribute_accepts distinct ran
    obtain ⟨r, hr⟩ := Option.isSome_iff_exists.mp hcontribute
    have acceptable := hiff.mp ⟨r, toOption_eq_some_iff.mp hr⟩
    obtain ⟨k, c', hrun, _, _, hconnections⟩ := haccepts acceptable
    exact ⟨s, c, k, c', hparse, ran, acceptable, hrun, hconnections.trans hids⟩
  · have heval : (Schema.parse crossedText).toOption.any (fun s =>
        s.connectionFields.map (fun x => (x.1.name, x.2.type.isList, x.2.type.base,
            x.2.connectionName?)) =
          [("Tag", true, "Post", some "tagged"), ("Post", true, "Tag", some "tagged")] ∧
        (Pipeline.runFrom (.start s) modelStages).toOption.isSome = true) = true := by
      decide +kernel
    obtain ⟨s, hparse, hs⟩ := exists_of_any heval
    obtain ⟨hfields, hran⟩ := of_decide_eq_true hs
    obtain ⟨c, hc⟩ := Option.isSome_iff_exists.mp hran
    have ran := toOption_eq_some_iff.mp hc
    have distinct := Schema.nodup_objects (Schema.check_of_parse hparse)
    simp only [List.map_eq_cons_iff, List.map_eq_nil_iff, Prod.mk.injEq] at hfields
    obtain ⟨x, _, hall, ⟨hxType, hx, hxBase, hxName⟩, y, _, rfl, ⟨hyType, hy, hyBase, hyName⟩,
      rfl⟩ := hfields
    have crossed : Crossed x y :=
      ⟨hx, hy, by rw [hxType, hyType]; decide, hxBase.trans hyType.symm, hyBase.trans hxType.symm,
        "tagged", hxName, hyName⟩
    have refused : ¬ Acceptable s := fun acceptable =>
      acceptable.uncrossed x (by simp [hall]) y (by simp [hall]) crossed
    obtain ⟨_, hrefused, _⟩ := contribute_accepts distinct ran
    obtain ⟨e, _, hrun⟩ := hrefused refused
    exact ⟨s, c, e, hparse, ran, refused, hrun⟩

end Connection

end SchemaStack
