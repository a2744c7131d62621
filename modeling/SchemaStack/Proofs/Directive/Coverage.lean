import SchemaStack.Proofs.Directive.Foundation
/-!
# Which resolvers are guarded

A guarded request starts with the group check of the rules. Of the resolvers that go through the
data source of a type with rules, those of its operations are guarded and those of relations to it
are not, so that all of them are guarded exactly when no field with `@connection` has that type.
-/

namespace SchemaStack.Auth

/-- A resolver that goes through the data source of a type. -/
structure Reads (type : String) (r : Resource) : Prop where
  resolver : r.type = .resolver
  source : r.property? "DataSourceName" = some (attributeOf (type ++ "DataSource") "Name")

/-- A resolver whose request starts with the group check of the rules. -/
def Guarded (rules : AuthRules) (r : Resource) : Prop :=
  ∃ rest, r.property? "RequestMappingTemplate" =
    some (.string (Guard.groupCheck rules.groups ++ rest))

/-! ## How requests start -/

lemma head?_append_toList (s t : String) (c : Char) (h : s.toList.head? = some c) :
    (s ++ t).toList.head? = some c := by
  rw [String.toList_append, List.head?_append, h]
  rfl

lemma head?_groupCheck (groups : List String) :
    (Guard.groupCheck groups).toList.head? = some '#' := by
  rw [Guard.groupCheck, Guard.terminated, List.append_assoc, List.singleton_append, List.map_cons,
    String.join_cons]
  exact head?_append_toList _ _ _ (by decide)

lemma head?_lines_object (operation : String) (members : List (List String)) :
    (Text.lines (Mapping.object operation members)).toList.head? = some '\x7b' := by
  rw [Mapping.object, Text.lines, List.append_assoc, List.singleton_append,
    String.intercalate_cons_of_ne_nil (by simp), String.append_assoc]
  exact head?_append_toList _ _ _ (by decide)

/-- The request of a relation. -/
lemma request_relation (rel : Relation) (m : Model) :
    ∃ operation members, (Connection.resolverResource rel m).property? "RequestMappingTemplate" =
      some (.string (Text.lines (Mapping.object operation members))) := by
  rw [Connection.resolverResource]
  split <;> exact ⟨_, _, rfl⟩

lemma not_guarded_relation (rules : AuthRules) (rel : Relation) (m : Model) :
    ¬ Guarded rules (Connection.resolverResource rel m) := by
  rintro ⟨rest, hguarded⟩
  obtain ⟨operation, members, hrequest⟩ := request_relation rel m
  have htext : Text.lines (Mapping.object operation members) =
      Guard.groupCheck rules.groups ++ rest := by
    rw [hrequest] at hguarded
    exact Json.string.inj (Option.some.inj hguarded)
  -- a request opens an object, a group check sets a variable
  have hbrace := head?_lines_object operation members
  rw [htext, head?_append_toList _ rest '#' (head?_groupCheck rules.groups)] at hbrace
  exact absurd (Option.some.inj hbrace) (by decide)

/-! ## What resolvers read -/

lemma source_resolver (type field dataSource request response : String) :
    (resolver type field dataSource request response).property? "DataSourceName" =
      some (attributeOf dataSource "Name") := rfl

lemma eq_of_source_eq {type type' : String}
    (h : some (attributeOf (type ++ "DataSource") "Name") =
      some (attributeOf (type' ++ "DataSource") "Name")) : type = type' := by
  simpa [attributeOf] using h

/-! ## The resolvers of a document -/

section Document

variable {pool name : String} {config : BuildConfig} {connections : Bool} {s : Schema}
variable {rs : List Relation}

lemma property_ne_of_mem_amendments {a : Amendment} (h : a ∈ (contribution pool s).amendments) :
    a.property ≠ "DataSourceName" := by
  rcases mem_amendments.mp h with hapi | ⟨_, _, _, _, _, hop⟩
  · rcases mem_apiAmendments.mp hapi with rfl | rfl <;> simp
  · rcases mem_guardsOfOperation.mp hop with rfl | ⟨_, _, rfl⟩ <;> simp

/-- Authorization leaves relations as they are. -/
lemma get?_built_relation (distinct : (s.objects.map ObjectType.name).Nodup)
    (guardable : ∀ o ∈ s.objects, Guardable o)
    (founded : Pipeline.Founded name config connections s rs) {rel : Relation} (hrel : rel ∈ rs) :
    (built pool name config s rs).document.get? (Connection.resolverId rel) =
      some (Connection.resolverResource rel (Model.ofType rel.target)) := by
  -- what authorization amends was there before the relations, whose IDs were new
  have hnew := Connection.resolverId_notMem (founded.resolved distinct) founded.accepts hrel
  have huntargeted : ∀ a ∈ (contribution pool s).amendments,
      a.target ≠ Connection.resolverId rel := by
    intro a ha heq
    refine hnew ?_
    rw [← heq]
    rcases mem_amendments.mp ha with hapi | ⟨o, ho, rules, hr, op, hop⟩
    · rw [target_of_mem_apiAmendments hapi, Model.ids_built]
      simp
    · rw [target_of_mem_guards hop]
      exact Model.mem_ids_built_part name config (mem_modelTypes_of_rules guardable ho hr)
        (.resolver op)
  rw [get?_built, Connection.get?_built_relation (founded.resolved distinct) founded.accepts hrel]
  exact congrArg some (Context.amended_of_untargeted huntargeted _)

/-- What reads a type serves one of its operations or a relation to it. -/
lemma id_cases_of_reads (distinct : (s.objects.map ObjectType.name).Nodup)
    (founded : Pipeline.Founded name config connections s rs) {id type : String} {r : Resource}
    (h : (built pool name config s rs).document.get? id = some r) (reads : Reads type r) :
    (∃ op : Operation, id = op.resolverId type) ∨
      ∃ rel ∈ rs, id = Connection.resolverId rel ∧ rel.target = type := by
  rw [get?_built] at h
  obtain ⟨r₀, hr₀, rfl⟩ := Option.map_eq_some_iff.mp h
  obtain ⟨hresolver, hsource⟩ := reads
  rw [Context.type_amended] at hresolver
  rw [Context.property?_amended_of_untouched fun a ha _ => property_ne_of_mem_amendments ha]
    at hsource
  rcases Connection.get?_built_cases distinct (founded.resolved distinct) hr₀ hresolver with
    ⟨o, _, op, rfl, rfl⟩ | ⟨rel, hrel, rfl, rfl⟩
  · obtain rfl : o.name = type := eq_of_source_eq hsource
    exact Or.inl ⟨op, rfl⟩
  · rw [Connection.source_resolverResource] at hsource
    exact Or.inr ⟨rel, hrel, rfl, eq_of_source_eq hsource⟩

lemma guarded_of_operation (distinct : (s.objects.map ObjectType.name).Nodup)
    (guardable : ∀ o ∈ s.objects, Guardable o) {o : ObjectType} (ho : o ∈ s.objects)
    {rules : AuthRules} (hr : AuthRules.ofType? o = .ok (some rules)) {op : Operation}
    {r : Resource}
    (h : (built pool name config s rs).document.get? (op.resolverId o.name) = some r) :
    Guarded rules r := by
  have hrequest : (built pool name config s rs).document.property? (op.resolverId o.name)
      "RequestMappingTemplate" = some (.string (Guard.request op rules (Mapping.request op))) :=
    request_built distinct guardable ho hr op
  rw [Document.property?, h] at hrequest
  exact ⟨_, hrequest⟩

lemma exists_reads_operation (distinct : (s.objects.map ObjectType.name).Nodup)
    {o : ObjectType} (ho : o ∈ s.modelTypes) (op : Operation) :
    ∃ r, (built pool name config s rs).document.get? (op.resolverId o.name) = some r ∧
      Reads o.name r := by
  rw [get?_built, Connection.get?_built_resolver name config distinct rs ho op]
  refine ⟨_, rfl, ?_, ?_⟩
  · exact Context.type_amended _ _ _
  · rw [Context.property?_amended_of_untouched fun a ha _ => property_ne_of_mem_amendments ha]
    exact source_resolver _ _ _ _ _

lemma exists_reads_relation (distinct : (s.objects.map ObjectType.name).Nodup)
    (guardable : ∀ o ∈ s.objects, Guardable o)
    (founded : Pipeline.Founded name config true s rs) {o : ObjectType} {f : Field}
    (hx : (o, f) ∈ s.connectionFields) :
    ∃ rel ∈ rs, (built pool name config s rs).document.get? (Connection.resolverId rel) =
        some (Connection.resolverResource rel (Model.ofType rel.target)) ∧
      Reads f.type.base (Connection.resolverResource rel (Model.ofType rel.target)) := by
  obtain ⟨rel, hrel, joins⟩ := Connection.exists_relation founded.relations hx
  obtain ⟨t, ht, htarget⟩ := joins.target
  have hbase : rel.target = f.type.base :=
    htarget.trans ((Api.types_registered distinct).mp ht).2
  refine ⟨rel, hrel, get?_built_relation distinct guardable founded hrel, ?_, ?_⟩
  · exact Connection.type_resolverResource _ _
  · rw [Connection.source_resolverResource, ← hbase]
    rfl

end Document

/-- Of the resolvers that read a type with rules, the guarded ones are those of its operations.
All of them are guarded exactly when no relation leads to the type. -/
theorem guarded_iff {c : BuildConfig} {pool : String} (hpool : c.userPool = some pool)
    {p : Pipeline} (hp : Pipeline.standard c = .ok p) {s : Schema} (valid : s.check = .ok ())
    {d : Document} (compiled : p.compileSchema s = .ok d) {o : ObjectType} (ho : o ∈ s.objects)
    (hauth : (o.directive? "auth").isSome) :
    ∃ rules, AuthRules.ofType? o = .ok (some rules) ∧
      (∀ op : Operation, ∃ r, d.get? (op.resolverId o.name) = some r ∧ Reads o.name r) ∧
      (∀ id r, d.get? id = some r → Reads o.name r →
        (Guarded rules r ↔ ∃ op : Operation, id = op.resolverId o.name)) ∧
      ((∀ id r, d.get? id = some r → Reads o.name r → Guarded rules r) ↔
        ∀ x ∈ s.connectionFields, x.2.type.base ≠ o.name) := by
  have distinct := Schema.nodup_objects valid
  obtain ⟨handled, guardable, rs, founded, rfl⟩ :=
    (Pipeline.compileSchema_eq_ok_iff_of_some hpool hp distinct).mp compiled
  obtain ⟨rules?, hr⟩ := (guardable o ho).readable
  have hmodel : o ∈ s.modelTypes := Schema.mem_modelTypes.mpr ⟨ho, (guardable o ho).model hauth⟩
  rw [← AuthRules.isSome_of_ofType? hr] at hauth
  obtain ⟨rules, rfl⟩ := Option.isSome_iff_exists.mp hauth
  have hrelation : ∀ rel ∈ rs, ∀ r,
      (built pool c.apiName c s rs).document.get? (Connection.resolverId rel) = some r →
        ¬ Guarded rules r := by
    intro rel hrel r hget
    rw [get?_built_relation distinct guardable founded hrel] at hget
    obtain rfl := Option.some.inj hget
    exact not_guarded_relation rules rel _
  refine ⟨rules, hr, exists_reads_operation distinct hmodel, ?_, ?_⟩
  · intro id r hget reads
    constructor
    · intro hguarded
      rcases id_cases_of_reads distinct founded hget reads with hop | ⟨rel, hrel, rfl, _⟩
      · exact hop
      · exact absurd hguarded (hrelation rel hrel r hget)
    · rintro ⟨op, rfl⟩
      exact guarded_of_operation distinct guardable ho hr hget
  · constructor
    -- a field that leads to the type has an unguarded resolver in the document
    · rintro hall ⟨o', f⟩ hx hbase
      cases hconnections : c.connections with
      | false =>
        rw [Pipeline.connectionFields_eq_nil hconnections hp handled] at hx
        cases hx
      | true =>
        rw [hconnections] at founded
        obtain ⟨rel, hrel, hget, reads⟩ := exists_reads_relation distinct guardable founded hx
        rw [hbase] at reads
        exact hrelation rel hrel _ hget (hall _ _ hget reads)
    · intro hnone id r hget reads
      rcases id_cases_of_reads distinct founded hget reads with
        ⟨op, rfl⟩ | ⟨rel, hrel, rfl, htarget⟩
      · exact guarded_of_operation distinct guardable ho hr hget
      · obtain ⟨o', ho', f, hf, hdirective, _, _, hbase, _⟩ := founded.resolved distinct rel hrel
        have hx : (o', f) ∈ s.connectionFields :=
          Schema.mem_connectionFields.mpr ⟨(Schema.mem_modelTypes.mp ho').1, hf, hdirective⟩
        exact absurd (hbase.symm.trans htarget) (hnone _ hx)

/-! ## A guarded type that is read without a guard -/

def blog : ObjectType where
  name := "Blog"
  directives := [⟨"model", [], 1⟩]
  fields := [⟨"id", .nonNull (.named "ID"), [], 1⟩,
    ⟨"posts", .list (.named "Post"), [⟨"connection", [], 1⟩], 1⟩]
  line := 1

/-- The posts of a blog, each of which belongs to its owner. -/
def post : ObjectType where
  name := "Post"
  directives := [⟨"model", [], 2⟩,
    ⟨"auth", [("rules", .list [.object [("allow", .enum "owner")]])], 2⟩]
  fields := [⟨"id", .nonNull (.named "ID"), [], 2⟩]
  line := 2

def ownedPosts : Schema := ⟨[.object blog, .object post]⟩

def pooledConfig : BuildConfig := { apiName := "blog", userPool := some "pool" }

def pooledPipeline : Pipeline := ⟨Pipeline.standardStages pooledConfig, rfl⟩

theorem guarded_iff_post :
    ∃ d rules, pooledPipeline.compileSchema ownedPosts = .ok d ∧
      AuthRules.ofType? post = .ok (some rules) ∧
      (∀ id r, d.get? id = some r → Reads "Post" r →
        (Guarded rules r ↔ ∃ op : Operation, id = op.resolverId "Post")) ∧
      ¬ ∀ id r, d.get? id = some r → Reads "Post" r → Guarded rules r := by
  have compiled : ∃ d, pooledPipeline.compileSchema ownedPosts = .ok d := ⟨_, rfl⟩
  obtain ⟨d, hd⟩ := compiled
  have hpost : post ∈ ownedPosts.objects := List.mem_cons_of_mem blog List.mem_cons_self
  have hpool : pooledConfig.userPool = some "pool" := rfl
  have hp : Pipeline.standard pooledConfig = .ok pooledPipeline := rfl
  have valid : ownedPosts.check = .ok () := rfl
  obtain ⟨rules, hr, _, hiff, hall⟩ := guarded_iff hpool hp valid hd hpost rfl
  refine ⟨d, rules, hd, hr, hiff, fun hguarded => ?_⟩
  exact hall.mp hguarded _ (List.mem_of_mem_head? rfl) rfl

/-- The posts of a blog can be read by anyone who may read the blog. -/
theorem posts_unguarded :
    ∃ d r, pooledPipeline.compileSchema ownedPosts = .ok d ∧
      d.get? "BlogPostsResolver" = some r ∧ Reads "Post" r ∧
      ∀ rules, AuthRules.ofType? post = .ok (some rules) → ¬ Guarded rules r :=
  ⟨_, Connection.resolverResource ⟨"Blog", "posts", "Post", "blogPostsId", some "gsi-BlogPosts"⟩
    (Model.ofType "Post"), rfl, rfl, ⟨rfl, rfl⟩, fun rules _ => not_guarded_relation rules _ _⟩

end SchemaStack.Auth
