import SchemaStack.Proofs.Directive.Queries
import SchemaStack.Proofs.Directive.Rules
/-!
# Pairs of fields

A single field and a list of the other type that give their relations one name are two sides of one
relation. They are resolved apart from each other: the list brings its own key, and the single field
looks for the list among the fields of its target and takes the key from there. That it can only
find one list is due to the indexes, of which a table has no two under one name.
-/

namespace SchemaStack

namespace Connection

open Indexing

/-! ## Names -/

/-- A field whose `@connection`, if it has one, has no other argument than a name. -/
def Readable (f : Field) : Prop :=
  ∀ d, f.directive? "connection" = some d →
    (∀ k ∈ d.arguments.keys, k = "name") ∧ ∀ v, d.arguments.get? "name" = some v → v.IsText

/-- Where the fields with `@connection` are readable, all fields are. -/
lemma readable_of_connectionFields {s : Schema} (h : ∀ x ∈ s.connectionFields, Readable x.2)
    {o : ObjectType} (ho : o ∈ s.objects) {f : Field} (hf : f ∈ o.fields) : Readable f := by
  intro d hd
  have hx : (o, f) ∈ s.connectionFields :=
    Schema.mem_connectionFields.mpr ⟨ho, hf, by rw [hd]; rfl⟩
  exact h _ hx d hd

/-- The name of a relation is there to be read exactly where its field is readable. -/
lemma name?_eq_ok_iff {o : ObjectType} {f : Field} {n : Option String} :
    name? o f = .ok n ↔ Readable f ∧ n = f.connectionName? := by
  refine ⟨fun h => ⟨fun d hd => ?_, name_of_name? h⟩, ?_⟩
  · rw [name?, hd] at h
    dsimp only at h
    cases hextra : d.arguments.keys.find? (· ≠ "name") with
    | some arg =>
      rw [hextra] at h
      cases h
    | none =>
      rw [hextra] at h
      refine ⟨by simpa using hextra, fun v hv => Literal.isSome_text?_iff.mp ?_⟩
      rw [hv] at h
      cases htext : v.text? with
      | none =>
        dsimp only at h
        rw [htext] at h
        cases h
      | some s => rfl
  · rintro ⟨readable, rfl⟩
    rw [name?, Field.connectionName?]
    cases hd : f.directive? "connection" with
    | none => rfl
    | some d =>
      obtain ⟨hkeys, htext⟩ := readable d hd
      have hextra : d.arguments.keys.find? (· ≠ "name") = none := by simpa using hkeys
      dsimp only
      rw [hextra, Option.bind_some]
      cases hv : d.arguments.get? "name" with
      | none => rfl
      | some v =>
        obtain ⟨s, hs⟩ := Option.isSome_iff_exists.mp (Literal.isSome_text?_iff.mpr (htext v hv))
        dsimp only
        rw [Option.bind_some, hs]

/-- A list of the items of a type whose relation has a name. -/
def answers (parent name : String) (f : Field) : Bool :=
  f.type.isList && f.type.base == parent && f.connectionName? == some name

lemma answers_iff {parent name : String} {f : Field} :
    answers parent name f = true ↔
      f.type.isList = true ∧ f.type.base = parent ∧ f.connectionName? = some name := by
  rw [answers, Bool.and_eq_true, Bool.and_eq_true, beq_iff_eq, beq_iff_eq, and_assoc]

/-- Among readable fields the first list that answers is found. -/
lemma pairedList?_eq_find? (target : ObjectType) (parent name : String) {fs : List Field}
    (readable : ∀ f ∈ fs, Readable f) :
    pairedList? target parent name fs = .ok (fs.find? (answers parent name)) := by
  induction fs with
  | nil => rfl
  | cons f fs ih =>
    obtain ⟨hf, hfs⟩ := List.forall_mem_cons.mp readable
    have hname : name? target f = .ok f.connectionName? := name?_eq_ok_iff.mpr ⟨hf, rfl⟩
    rw [pairedList?, hname]
    dsimp only
    by_cases hanswers : answers parent name f = true
    · obtain ⟨hlist, hbase, hn⟩ := answers_iff.mp hanswers
      rw [List.find?_cons_of_pos hanswers, if_pos hbase, if_pos ⟨hn, hlist⟩]
    · rw [List.find?_cons_of_neg hanswers, ih hfs]
      split
      · rename_i hbase
        exact if_neg fun ⟨hn, hlist⟩ => hanswers (answers_iff.mpr ⟨hlist, hbase, hn⟩)
      · rfl

/-! ## Resolving -/

/-- The key of a single field: that of the list that answers, or else its own. -/
def singleKey (target : ObjectType) (x : ObjectType × Field) : String :=
  ((x.2.connectionName?.bind fun n => target.fields.find? (answers x.1.name n)).map
    fun g => keyName (target, g)).getD (keyName x)

/-- The relation of a single field that has a key. -/
def singleRelation (x : ObjectType × Field) (key : String) : Relation :=
  ⟨x.1.name, x.2.name, x.2.type.base, key, none⟩

lemma resolveSingle_eq {target : ObjectType} (readable : ∀ g ∈ target.fields, Readable g)
    {o : ObjectType} {f : Field} (base : target.name = f.type.base) :
    resolveSingle o target f f.connectionName? =
      .ok (singleRelation (o, f) (singleKey target (o, f))) := by
  rw [singleKey, singleRelation, ← base]
  dsimp only
  cases f.connectionName? with
  | none => rfl
  | some n =>
    change (pairedList? target o.name n target.fields >>= _) = _
    rw [pairedList?_eq_find? target o.name n readable, Option.bind_some, ok_bind]
    cases target.fields.find? (answers o.name n) <;> rfl

section Resolving

variable {s : Schema} (distinct : (s.objects.map ObjectType.name).Nodup)
include distinct

/-- What resolving a field comes to. -/
lemma resolve_eq_ok_iff {o : ObjectType} {f : Field} {r : Relation} :
    resolve (Model.registered s) o f = .ok r ↔
      (∃ t ∈ s.modelTypes, t.name = o.name) ∧ Readable f ∧
        ∃ target ∈ s.modelTypes, target.name = f.type.base ∧
          (if f.type.isList then resolveList o target f f.connectionName?
            else resolveSingle o target f f.connectionName?) = .ok r := by
  constructor
  · intro h
    rw [resolve] at h
    split at h
    · cases h
    · rename_i m hm
      split at h
      · rename_i m' target hm' htarget
        obtain ⟨name, hname, h⟩ := bind_eq_ok h
        obtain ⟨readable, rfl⟩ := name?_eq_ok_iff.mp hname
        obtain ⟨⟨t, ht, hbase⟩, _⟩ := Model.model?_registered.mp hm'
        obtain ⟨htype, htargetBase⟩ := (Api.types_registered distinct).mp htarget
        obtain rfl : t = target := Schema.eq_of_name_eq distinct (Schema.mem_modelTypes.mp ht).1
          htype (hbase.trans htargetBase.symm)
        exact ⟨(Model.model?_registered.mp hm).1, readable, t, ht, hbase, h⟩
      · cases h
  · rintro ⟨owner, readable, target, htarget, hbase, h⟩
    have hm : (Model.registered s).model? o.name = some (Model.ofType o.name) :=
      Model.model?_registered.mpr ⟨owner, rfl⟩
    have hm' : (Model.registered s).model? f.type.base = some (Model.ofType f.type.base) :=
      Model.model?_registered.mpr ⟨⟨target, htarget, hbase⟩, rfl⟩
    have htype : (Model.registered s).types.get? f.type.base = some target :=
      (Api.types_registered distinct).mpr ⟨(Schema.mem_modelTypes.mp htarget).1, hbase⟩
    rw [resolve, hm, hm', htype]
    dsimp only
    rw [name?_eq_ok_iff.mpr ⟨readable, rfl⟩, ok_bind]
    exact h

variable {rs : List Relation} (h : relations (Model.registered s) = .ok rs)
include h

omit distinct in
lemma exists_resolved {x : ObjectType × Field} (hx : x ∈ s.connectionFields) :
    ∃ r ∈ rs, resolve (Model.registered s) x.1 x.2 = .ok r :=
  exists_of_mem_forall₂ (forall₂_of_relations h).flip hx

lemma readable_of_relations {o : ObjectType} (ho : o ∈ s.objects) {f : Field}
    (hf : f ∈ o.fields) : Readable f := by
  refine readable_of_connectionFields (fun x hx => ?_) ho hf
  obtain ⟨_, _, hresolve⟩ := exists_resolved h hx
  exact ((resolve_eq_ok_iff distinct).mp hresolve).2.1

/-- A single field has its relation, with the key that its target gives it. -/
lemma singleRelation_mem {x : ObjectType × Field} (hx : x ∈ s.connectionFields)
    (single : x.2.type.isList = false) :
    ∃ target ∈ s.objects, target.name = x.2.type.base ∧
      singleRelation x (singleKey target x) ∈ rs := by
  obtain ⟨r, hr, hresolve⟩ := exists_resolved h hx
  obtain ⟨_, _, target, htarget, hbase, hsingle⟩ := (resolve_eq_ok_iff distinct).mp hresolve
  have htype := (Schema.mem_modelTypes.mp htarget).1
  rw [if_neg (by simp [single]),
    resolveSingle_eq (fun g => readable_of_relations distinct h htype) hbase] at hsingle
  exact ⟨target, htype, hbase, Except.ok.inj hsingle ▸ hr⟩

end Resolving

end Connection

/-! ## Two sides of one relation -/

namespace Indexing

/-- A single field and a list of its target that have one name for their relation and refer to each
other's types. -/
structure Paired (x y : ObjectType × Field) : Prop where
  single : x.2.type.isList = false
  list : y.2.type.isList = true
  target : x.2.type.base = y.1.name
  items : y.2.type.base = x.1.name
  name : ∃ n, x.2.connectionName? = some n ∧ y.2.connectionName? = some n

lemma paired_iff_answers {x y : ObjectType × Field} (single : x.2.type.isList = false)
    (target : y.1.name = x.2.type.base) :
    Paired x y ↔
      ∃ n, x.2.connectionName? = some n ∧ Connection.answers x.1.name n y.2 = true := by
  constructor
  · rintro ⟨_, list, _, items, n, hx, hy⟩
    exact ⟨n, hx, Connection.answers_iff.mpr ⟨list, items, hy⟩⟩
  · rintro ⟨n, hx, hanswers⟩
    obtain ⟨list, items, hy⟩ := Connection.answers_iff.mp hanswers
    exact ⟨single, list, target.symm, items, n, hx, hy⟩

lemma indexName_of_paired {x y : ObjectType × Field} (paired : Paired x y) :
    ∃ n, x.2.connectionName? = some n ∧ indexName y = "gsi-" ++ n := by
  obtain ⟨n, hx, hy⟩ := paired.name
  exact ⟨n, hx, by rw [indexName, hy, Option.getD_some]⟩

end Indexing

namespace Connection

open Indexing

/-- A list that answers is a field with `@connection` of the target. -/
lemma mem_connectionFields_of_answers {s : Schema} {o : ObjectType} (ho : o ∈ s.objects) {g : Field}
    (hg : g ∈ o.fields) {parent n : String} (hanswers : answers parent n g = true) :
    (o, g) ∈ s.connectionFields := by
  obtain ⟨_, _, hname⟩ := answers_iff.mp hanswers
  refine Schema.mem_connectionFields.mpr ⟨ho, hg, ?_⟩
  rw [Field.connectionName?] at hname
  cases hd : g.directive? "connection" with
  | none =>
    rw [hd] at hname
    cases hname
  | some d => rfl

section Pairs

variable {s : Schema} (distinct : (s.objects.map ObjectType.name).Nodup)
variable {rs : List Relation} (h : relations (Model.registered s) = .ok rs)
variable {x y y' : ObjectType × Field}
include distinct h

/-- Two lists paired with one field would be two indexes of one name on its table. -/
lemma eq_of_paired (hy : y ∈ s.connectionFields) (hy' : y' ∈ s.connectionFields)
    (paired : Paired x y) (paired' : Paired x y') : y' = y := by
  obtain ⟨n, hn, hindex⟩ := indexName_of_paired paired
  obtain ⟨n', hn', hindex'⟩ := indexName_of_paired paired'
  obtain rfl : n = n' := Option.some.inj (hn.symm.trans hn')
  have listed : ∀ z ∈ s.connectionFields, Paired x z → z ∈ s.listFields x.1.name := by
    intro z hz hpaired
    exact List.mem_filter.mpr ⟨hz, by simp [hpaired.list, hpaired.items]⟩
  exact List.inj_on_of_nodup_map (nodup_indexName distinct h x.1.name) (listed y' hy' paired')
    (listed y hy paired) (hindex'.trans hindex.symm)

/-- A single field takes the key of the list that it is paired with. -/
lemma singleRelation_mem_of_paired (hx : x ∈ s.connectionFields) (hy : y ∈ s.connectionFields)
    (paired : Paired x y) : singleRelation x (keyName y) ∈ rs := by
  obtain ⟨target, htype, hbase, hr⟩ := singleRelation_mem distinct h hx paired.single
  obtain ⟨hy₁, hy₂, _⟩ := Schema.mem_connectionFields.mp hy
  obtain rfl : target = y.1 :=
    Schema.eq_of_name_eq distinct htype hy₁ (hbase.trans paired.target)
  obtain ⟨n, hn, hanswers⟩ := (paired_iff_answers paired.single hbase).mp paired
  obtain ⟨g, hg⟩ : ∃ g, y.1.fields.find? (answers x.1.name n) = some g :=
    Option.isSome_iff_exists.mp (List.find?_isSome.mpr ⟨y.2, hy₂, hanswers⟩)
  have hganswers : answers x.1.name n g = true := List.find?_some hg
  have hgpaired : Paired x (y.1, g) :=
    (paired_iff_answers (y := (y.1, g)) paired.single hbase).mpr ⟨n, hn, hganswers⟩
  have hgmem := mem_connectionFields_of_answers htype (List.mem_of_find?_eq_some hg)
    hganswers
  have hkey : singleKey y.1 x = keyName (y.1, g) := by
    rw [singleKey, hn, Option.bind_some, hg]
    rfl
  rwa [hkey, eq_of_paired distinct h hy hgmem paired hgpaired] at hr

/-- A single field that is not paired has a key of its own. -/
lemma singleRelation_mem_of_unpaired (hx : x ∈ s.connectionFields)
    (single : x.2.type.isList = false) (unpaired : ∀ y ∈ s.connectionFields, ¬ Paired x y) :
    singleRelation x (keyName x) ∈ rs := by
  obtain ⟨target, htype, hbase, hr⟩ := singleRelation_mem distinct h hx single
  have hnone : (x.2.connectionName?.bind fun n => target.fields.find? (answers x.1.name n)) =
      none := by
    refine Option.bind_eq_none_iff.mpr fun n hn => List.find?_eq_none.mpr fun g hg hanswers => ?_
    have hgpaired : Paired x (target, g) :=
      (paired_iff_answers (y := (target, g)) single hbase).mpr ⟨n, hn, hanswers⟩
    exact unpaired _ (mem_connectionFields_of_answers htype hg hanswers) hgpaired
  rwa [singleKey, hnone] at hr

end Pairs

end Connection

/-! ## One key on both sides -/

namespace Mapping

/-- The request for the item whose `id` is an attribute of the parent. -/
def itemTemplate (attr : String) : String :=
  Text.lines
    ["\x7b", "  \"version\": \"2017-02-28\",", "  \"operation\": \"GetItem\",", "  \"key\": \x7b",
     "    \"id\": $util.dynamodb.toDynamoDBJson($util.defaultIfNullOrBlank($ctx.source." ++ attr ++
       ", \"___xamznone____\"))",
     "  \x7d", "\x7d"]

lemma itemRequest_eq (attr : String) : itemRequest attr = itemTemplate attr := by
  refine congrArg Text.lines ?_
  have hkey : "  " ++ ("  \"id\": $util.dynamodb.toDynamoDBJson(" ++
      ("$util.defaultIfNullOrBlank($ctx.source." ++ attr ++ ", \"___xamznone____\")") ++ ")") =
      "    \"id\": $util.dynamodb.toDynamoDBJson($util.defaultIfNullOrBlank($ctx.source." ++ attr ++
        ", \"___xamznone____\"))" := String.toList_inj.mp (by simp)
  simp [object, withCommas, key, hkey]

end Mapping

namespace Indexing

/-- The resolver of a field fetches the item whose ID is an attribute. -/
def Fetches (d : Document) (x : ObjectType × Field) (attr : String) : Prop :=
  d.property? (x.1.name ++ Text.upperFirst x.2.name ++ "Resolver") "RequestMappingTemplate" =
    some (.string (Mapping.itemTemplate attr))

/-- A single field and a list hold on to one attribute: the single field reads it, the list queries
by it, and it is the key of the index of the list on the table of the single field. -/
structure OneKey (d : Document) (x y : ObjectType × Field) (attr : String) : Prop where
  fetched : Fetches d x attr
  queried : ∃ literal,
    d.property? (y.1.name ++ Text.upperFirst y.2.name ++ "Resolver") "RequestMappingTemplate" =
      some (.string (Mapping.queryTemplate literal attr))
  indexed : ∃ throughput indexes,
    d.property? (x.1.name ++ "Table") "GlobalSecondaryIndexes" = some (.array indexes) ∧
      .object
        [("IndexName", .string (indexName y)),
         ("KeySchema", .array
           [.object [("AttributeName", .string attr), ("KeyType", .string "HASH")]]),
         ("Projection", .object [("ProjectionType", .string "ALL")]),
         ("ProvisionedThroughput", throughput)] ∈ indexes

end Indexing

namespace Pipeline

open Indexing

lemma Assembled.fetches {c : BuildConfig} {s : Schema} {rs : List Relation} {d : Document}
    (assembled : Assembled c s rs d) (distinct : (s.objects.map ObjectType.name).Nodup)
    {x : ObjectType × Field} {attr : String} (hr : Connection.singleRelation x attr ∈ rs) :
    Fetches d x attr := by
  change (d.get? (Connection.resolverId (Connection.singleRelation x attr))).bind _ = _
  rw [assembled.get?_relation distinct hr, ← Mapping.itemRequest_eq]
  rfl

/-- In a compiled document, a single field is paired with no more than one list of its target, and
the two hold on to one attribute, which is named after the list. A single field that is not paired
reads the attribute that is named after itself. -/
theorem oneKey_of_compile {c : BuildConfig} {p : Pipeline} (hp : standard c = .ok p)
    {text : String} {d : Document} (compiled : p.compile text = .ok d) :
    ∃ s, Schema.parse text = .ok s ∧
      ∀ x ∈ s.connectionFields, x.2.type.isList = false →
        (∀ y ∈ s.connectionFields, Paired x y →
          (∀ y' ∈ s.connectionFields, Paired x y' → y' = y) ∧
            OneKey d x y (Text.lowerFirst y.1.name ++ Text.upperFirst y.2.name ++ "Id")) ∧
        ((∀ y ∈ s.connectionFields, ¬ Paired x y) →
          Fetches d x (Text.lowerFirst x.1.name ++ Text.upperFirst x.2.name ++ "Id")) := by
  obtain ⟨s, hparse, hcompiled, _⟩ := exists_compiled hp compiled
  have distinct := Schema.nodup_objects (Schema.check_of_parse hparse)
  obtain ⟨rs, assembled⟩ := assembled_of_compileSchema hp distinct hcompiled
  have hrelations := assembled.relations
  refine ⟨s, hparse, fun x hx single => ⟨fun y hy paired => ⟨?_, ?_⟩, fun unpaired => ?_⟩⟩
  · exact fun y' hy' => Connection.eq_of_paired distinct hrelations hy hy' paired
  · obtain ⟨hrequest, throughput, indexes, hindexes, hmem⟩ :=
      query_of_compileSchema hp distinct hcompiled hy paired.list
    rw [Mapping.queryRequest_eq] at hrequest
    rw [paired.items] at hindexes
    exact ⟨assembled.fetches distinct
      (Connection.singleRelation_mem_of_paired distinct hrelations hx hy paired),
      ⟨_, hrequest⟩, ⟨throughput, indexes, hindexes, hmem⟩⟩
  · exact assembled.fetches distinct
      (Connection.singleRelation_mem_of_unpaired distinct hrelations hx single unpaired)

/-- People of one type are led, lead teams and have mentors. -/
def teamText : String :=
  "type Person @model \x7b id: ID! lead: Person @connection(name: \"team\") " ++
    "team: [Person!] @connection(name: team) mentor: Person @connection(name: \"lead\") " ++
    "pupils: [Person] @connection \x7d"

theorem oneKey_of_compile_team :
    ∃ d x y z, listingPipeline.compile teamText = .ok d ∧
      (x.2.name, y.2.name, z.2.name) = ("lead", "team", "mentor") ∧ Paired x y ∧
      OneKey d x y "personTeamId" ∧ Fetches d z "personMentorId" := by
  have hp : standard listingConfig = .ok listingPipeline := rfl
  have heval : (Schema.parse teamText).toOption.any (fun s =>
      (listingPipeline.compileSchema s).toOption.isSome = true ∧
      s.connectionFields.map (fun x => (x.1.name, x.2.name, x.2.type.isList, x.2.type.base,
          x.2.connectionName?)) =
        [("Person", "lead", false, "Person", some "team"),
         ("Person", "team", true, "Person", some "team"),
         ("Person", "mentor", false, "Person", some "lead"),
         ("Person", "pupils", true, "Person", none)]) = true := by
    decide +kernel
  obtain ⟨s, hparse, hs⟩ := exists_of_any heval
  obtain ⟨hok, hfields⟩ := of_decide_eq_true hs
  simp only [List.map_eq_cons_iff, List.map_eq_nil_iff, Prod.mk.injEq] at hfields
  obtain ⟨x, _, hall, ⟨hxType, hx, hxSingle, hxBase, hxName⟩, y, _, rfl, ⟨hyType, hy, hyList,
    hyBase, hyName⟩, z, _, rfl, ⟨hzType, hz, hzSingle, _, hzName⟩, w, _, rfl, ⟨_, _, _, _, hwName⟩,
    rfl⟩ := hfields
  have paired : Paired x y := ⟨hxSingle, hyList, hxBase.trans hyType.symm,
    hyBase.trans hxType.symm, "team", hxName, hyName⟩
  -- no list answers to the name that the mentor has
  have unpaired : ∀ y' ∈ s.connectionFields, ¬ Paired z y' := by
    rw [hall]
    intro y' hy' hpaired
    obtain ⟨n, hn, hn'⟩ := hpaired.name
    obtain rfl := Option.some.inj (hzName.symm.trans hn)
    have hlist := hpaired.list
    simp only [List.mem_cons, List.not_mem_nil, or_false] at hy'
    rcases hy' with rfl | rfl | rfl | rfl
    · simp [hxSingle] at hlist
    · simp [hyName] at hn'
    · simp [hzSingle] at hlist
    · simp [hwName] at hn'
  obtain ⟨d, hd⟩ := Option.isSome_iff_exists.mp hok
  have hcompile : listingPipeline.compile teamText = .ok d :=
    (compile_of_parse (p := listingPipeline) hparse).trans (toOption_eq_some_iff.mp hd)
  obtain ⟨s', hparse', keys⟩ := oneKey_of_compile hp hcompile
  obtain rfl := Except.ok.inj (hparse.symm.trans hparse')
  obtain ⟨hkey, _⟩ := keys x (by simp [hall]) hxSingle
  obtain ⟨_, hown⟩ := keys z (by simp [hall]) hzSingle
  have hone := (hkey y (by simp [hall]) paired).2
  have hfetched := hown unpaired
  rw [hyType, hy] at hone
  rw [hzType, hz] at hfetched
  exact ⟨d, x, y, z, hcompile, by rw [hx, hy, hz], paired, hone, hfetched⟩

end Pipeline

end SchemaStack
