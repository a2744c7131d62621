import SchemaStack.Proofs.Directive.Erasure
/-!
# Authorization as an overlay

A schema with `@auth` and its erasure are compiled with and without a user pool. Where the first
compilation ends with a document, the second one does, and the documents differ in the properties
that authorization sets and nowhere else. The second decides the first: what else a schema needs is
that its rules can be read, that types with rules are models and that no field has `@auth`.
-/

namespace SchemaStack

namespace Auth

/-- The properties that authorization sets. -/
inductive Overlaid (s : Schema) : String → String → Prop
  | authentication : Overlaid s Api.apiId "AuthenticationType"
  | userPool : Overlaid s Api.apiId "UserPoolConfig"
  | request {o : ObjectType} {rules : AuthRules} (ho : o ∈ s.objects)
      (hr : AuthRules.ofType? o = .ok (some rules)) (op : Operation) :
      Overlaid s (op.resolverId o.name) "RequestMappingTemplate"
  | response {o : ObjectType} {rules : AuthRules} (ho : o ∈ s.objects)
      (hr : AuthRules.ofType? o = .ok (some rules)) (owned : rules.ownerField.isSome)
      {op : Operation} (reads : op = .get ∨ op = .list) :
      Overlaid s (op.resolverId o.name) "ResponseMappingTemplate"

/-- What the document of a schema has to do with that of its erasure. -/
structure Overlays (pool : String) (s : Schema) (d₀ d : Document) : Prop where
  outline : d.outline = d₀.outline
  rest : ∀ id key, ¬ Overlaid s id key → d.property? id key = d₀.property? id key
  authentication : d.property? Api.apiId "AuthenticationType" =
    some (.string "AMAZON_COGNITO_USER_POOLS")
  userPool : d.property? Api.apiId "UserPoolConfig" = some (userPool pool)
  request : ∀ o ∈ s.objects, ∀ rules, AuthRules.ofType? o = .ok (some rules) →
    ∀ op : Operation, ∃ mapping,
      d₀.property? (op.resolverId o.name) "RequestMappingTemplate" = some (.string mapping) ∧
      d.property? (op.resolverId o.name) "RequestMappingTemplate" =
        some (.string (Guard.request op rules mapping))
  response : ∀ o ∈ s.objects, ∀ rules, AuthRules.ofType? o = .ok (some rules) →
    rules.ownerField.isSome → ∀ op : Operation, op = .get ∨ op = .list → ∃ response,
      Guard.response? op rules = some response ∧
      d.property? (op.resolverId o.name) "ResponseMappingTemplate" = some (.string response)

/-! ## The documents -/

lemma response?_isSome_iff (op : Operation) (rules : AuthRules) :
    (Guard.response? op rules).isSome ↔ rules.ownerField.isSome ∧ (op = .get ∨ op = .list) := by
  obtain ⟨owner, groups⟩ := rules
  cases owner <;> cases op <;> simp [Guard.response?]

lemma overlaid_of_mem_amendments {pool : String} {s : Schema} {a : Amendment}
    (h : a ∈ (contribution pool s).amendments) : Overlaid s a.target a.property := by
  rcases mem_amendments.mp h with hapi | ⟨o, ho, rules, hr, op, hop⟩
  · rcases mem_apiAmendments.mp hapi with rfl | rfl
    · exact .authentication
    · exact .userPool
  · rcases mem_guardsOfOperation.mp hop with rfl | ⟨response, hresponse, rfl⟩
    · exact .request ho hr op
    · obtain ⟨owned, reads⟩ :=
        (response?_isSome_iff op rules).mp (Option.isSome_iff_exists.mpr ⟨response, hresponse⟩)
      exact .response ho hr owned reads

theorem overlays_built (pool name : String) (config : BuildConfig) {s : Schema}
    (distinct : (s.objects.map ObjectType.name).Nodup)
    (guardable : ∀ o ∈ s.objects, Guardable o) (rs : List Relation) :
    Overlays pool s (Connection.built name config s rs).document
      (built pool name config s rs).document where
  outline := outline_built pool name config s rs
  rest := by
    intro id key hrest
    refine property?_built_of_untouched fun a ha htarget hproperty => hrest ?_
    rw [← htarget, ← hproperty]
    exact overlaid_of_mem_amendments ha
  authentication := property?_built_api name config s rs (mem_apiAmendments.mpr (Or.inl rfl))
  userPool := property?_built_api name config s rs (mem_apiAmendments.mpr (Or.inr rfl))
  request := by
    intro o ho rules hr op
    have hmodel := mem_modelTypes_of_rules guardable ho hr
    refine ⟨Mapping.request op, ?_, request_built distinct guardable ho hr op⟩
    rw [Document.property?, Connection.get?_built_resolver name config distinct rs hmodel op]
    rfl
  response := by
    intro o ho rules hr owned op reads
    obtain ⟨response, hresponse⟩ :=
      Option.isSome_iff_exists.mp ((response?_isSome_iff op rules).mpr ⟨owned, reads⟩)
    exact ⟨response, hresponse, response_built distinct guardable ho hr hresponse⟩

end Auth

/-! ## The directives -/

namespace Pipeline

lemma mem_directivesOf_eraseAuth {o : ObjectType} {x : Location × Directive} :
    x ∈ directivesOf o.eraseAuth ↔ x ∈ directivesOf o ∧ x.2.name ≠ "auth" := by
  obtain ⟨location, d⟩ := x
  cases location with
  | object =>
    rw [mem_directivesOf_object, mem_directivesOf_object]
    exact mem_withoutAuth
  | field =>
    rw [mem_directivesOf_field, mem_directivesOf_field]
    constructor
    · rintro ⟨f', hf', hd⟩
      obtain ⟨f, hf, rfl⟩ := List.mem_map.mp hf'
      obtain ⟨hd, hname⟩ := mem_withoutAuth.mp hd
      exact ⟨⟨f, hf, hd⟩, hname⟩
    · rintro ⟨⟨f, hf, hd⟩, hname⟩
      exact ⟨f.eraseAuth, List.mem_map_of_mem hf, mem_withoutAuth.mpr ⟨hd, hname⟩⟩

section TwoPipelines

variable {c : BuildConfig} {pool : String} {p p₀ : Pipeline}

/-- The user pool gives a meaning to `@auth` on types and changes nothing else. -/
lemma handles_iff (hpool : c.userPool = some pool) (hp : standard c = .ok p)
    (hp₀ : standard { c with userPool := none } = .ok p₀) {location : Location} {d : Directive} :
    Handles p.directives location d ↔
      d.name = "auth" ∧ location = .object ∨
        d.name ≠ "auth" ∧ Handles p₀.directives location d := by
  have hdirectives : p.directives = p₀.directives ++ [⟨"auth", .object⟩] := by
    rw [directives_of_standard hp, directives_of_standard hp₀, hpool]
    exact congrArg (· ++ _) (List.append_nil _).symm
  have hnames : ∀ spec ∈ p₀.directives, spec.name ≠ "auth" := by
    rw [directives_of_standard hp₀]
    simp only [Option.isSome_none, Bool.false_eq_true, if_false, List.append_nil]
    cases c.connections <;> decide
  rw [Handles, Handles, hdirectives]
  constructor
  · rintro ⟨spec, hspec, hname, hlocation⟩
    rcases List.mem_append.mp hspec with hspec | hspec
    · exact Or.inr ⟨hname ▸ hnames spec hspec, spec, hspec, hname, hlocation⟩
    · obtain rfl := List.mem_singleton.mp hspec
      exact Or.inl ⟨hname.symm, hlocation.symm⟩
  · rintro (⟨hname, rfl⟩ | ⟨_, spec, hspec, hname, hlocation⟩)
    · exact ⟨_, List.mem_append_right _ List.mem_cons_self, hname.symm, rfl⟩
    · exact ⟨spec, List.mem_append_left _ hspec, hname, hlocation⟩

lemma checkDirectives_eraseAuth_iff (hpool : c.userPool = some pool) (hp : standard c = .ok p)
    (hp₀ : standard { c with userPool := none } = .ok p₀) {s : Schema} :
    p.checkDirectives s = .ok () ↔ p₀.checkDirectives s.eraseAuth = .ok () ∧
      ∀ o ∈ s.objects, ∀ f ∈ o.fields, f.directive? "auth" = none := by
  rw [checkDirectives_eq_ok_iff, checkDirectives_eq_ok_iff, Schema.objects_eraseAuth]
  constructor
  · intro handled
    constructor
    · intro o' ho' x hx
      obtain ⟨o, ho, rfl⟩ := List.mem_map.mp ho'
      obtain ⟨hx, hname⟩ := mem_directivesOf_eraseAuth.mp hx
      rcases (handles_iff hpool hp hp₀).mp (handled o ho x hx) with ⟨hauth, _⟩ | ⟨_, handles⟩
      · exact absurd hauth hname
      · exact handles
    · intro o ho f hf
      by_contra hsome
      obtain ⟨d, hd, hname⟩ :=
        directiveNamed?_isSome_iff.mp (Option.isSome_iff_ne_none.mpr hsome)
      have handles := handled o ho (.field, d) (mem_directivesOf_field.mpr ⟨f, hf, hd⟩)
      rcases (handles_iff hpool hp hp₀).mp handles with ⟨_, hlocation⟩ | ⟨hne, _⟩
      · cases hlocation
      · exact hne hname
  · rintro ⟨handled, hfields⟩ o ho ⟨location, d⟩ hx
    refine (handles_iff hpool hp hp₀).mpr ?_
    by_cases hname : d.name = "auth"
    · refine Or.inl ⟨hname, ?_⟩
      cases location with
      | object => rfl
      | field =>
        obtain ⟨f, hf, hd⟩ := mem_directivesOf_field.mp hx
        have hsome : (f.directive? "auth").isSome :=
          directiveNamed?_isSome_iff.mpr ⟨d, hd, hname⟩
        rw [hfields o ho f hf] at hsome
        cases hsome
    · exact Or.inr ⟨hname, handled _ (List.mem_map_of_mem ho) _
        (mem_directivesOf_eraseAuth.mpr ⟨hx, hname⟩)⟩

/-- Authorization is an overlay: a schema compiles with a user pool exactly when its erasure
compiles without one and the rules make sense, and the documents differ only where authorization
sets a property. -/
theorem compileSchema_overlays (hpool : c.userPool = some pool) (hp : standard c = .ok p)
    (hp₀ : standard { c with userPool := none } = .ok p₀) {s : Schema}
    (valid : s.check = .ok ()) :
    s.eraseAuth.check = .ok () ∧
      (∀ d, p.compileSchema s = .ok d →
        ∃ d₀, p₀.compileSchema s.eraseAuth = .ok d₀ ∧ Auth.Overlays pool s d₀ d) ∧
      ((∃ d₀, p₀.compileSchema s.eraseAuth = .ok d₀) →
        (∀ o ∈ s.objects, ∃ rules, AuthRules.ofType? o = .ok rules) →
        (∀ o ∈ s.objects, (o.directive? "auth").isSome → (o.directive? "model").isSome) →
        (∀ o ∈ s.objects, ∀ f ∈ o.fields, f.directive? "auth" = none) →
        ∃ d, p.compileSchema s = .ok d) := by
  have distinct := Schema.nodup_objects valid
  have valid₀ : s.eraseAuth.check = .ok () := s.check_eraseAuth.trans valid
  have distinct₀ := Schema.nodup_objects valid₀
  refine ⟨valid₀, ?_, ?_⟩
  -- both runs find the same relations, and their builds are the same up to authorization
  · intro d compiled
    obtain ⟨handled, guardable, rs, founded, rfl⟩ :=
      (compileSchema_eq_ok_iff_of_some hpool hp distinct).mp compiled
    refine ⟨(Connection.built c.apiName c s rs).document, ?_,
      Auth.overlays_built pool c.apiName c distinct guardable rs⟩
    refine (compileSchema_eq_ok_iff_of_none rfl hp₀ distinct₀).mpr
      ⟨((checkDirectives_eraseAuth_iff hpool hp hp₀).mp handled).1, rs, ?_, ?_⟩
    · exact founded_eraseAuth_iff.mpr ⟨founded.models, founded.relations, founded.accepts⟩
    · exact (Connection.document_built_eraseAuth c.apiName { c with userPool := none } s rs).symm
  · rintro ⟨d₀, compiled⟩ readable models fields
    obtain ⟨handled, rs, founded₀, _⟩ :=
      (compileSchema_eq_ok_iff_of_none rfl hp₀ distinct₀).mp compiled
    obtain ⟨hmodels, hrelations, haccepts⟩ := founded_eraseAuth_iff.mp founded₀
    refine ⟨_, (compileSchema_eq_ok_iff_of_some hpool hp distinct).mpr
      ⟨(checkDirectives_eraseAuth_iff hpool hp hp₀).mpr ⟨handled, fields⟩,
        fun o ho => ⟨readable o ho, models o ho⟩, rs, ⟨hmodels, hrelations, haccepts⟩, rfl⟩⟩

end TwoPipelines

/-! ## A schema that both pipelines compile -/

def note : ObjectType where
  name := "Note"
  directives := [⟨"model", [], 1⟩,
    ⟨"auth", [("rules", .list [.object [("allow", .enum "owner")]])], 1⟩]
  fields := [⟨"id", .nonNull (.named "ID"), [], 1⟩]
  line := 1

def notes : Schema := ⟨[.object note]⟩

def withPool : BuildConfig := { apiName := "notes", userPool := some "pool" }

def securedPipeline : Pipeline := ⟨standardStages withPool, rfl⟩

def openPipeline : Pipeline := ⟨standardStages { withPool with userPool := none }, rfl⟩

/-- Both directions apply to the schema. -/
theorem compileSchema_overlays_notes :
    (∃ d d₀, securedPipeline.compileSchema notes = .ok d ∧
      openPipeline.compileSchema notes.eraseAuth = .ok d₀ ∧
      Auth.Overlays "pool" notes d₀ d) ∧
      ∃ d, securedPipeline.compileSchema notes = .ok d := by
  have compiled : ∃ d, securedPipeline.compileSchema notes = .ok d := ⟨_, rfl⟩
  have compiled₀ : ∃ d₀, openPipeline.compileSchema notes.eraseAuth = .ok d₀ := ⟨_, rfl⟩
  have hpool : withPool.userPool = some "pool" := rfl
  have hp : standard withPool = .ok securedPipeline := rfl
  have hp₀ : standard { withPool with userPool := none } = .ok openPipeline := rfl
  have valid : notes.check = .ok () := rfl
  obtain ⟨_, forward, backward⟩ := compileSchema_overlays hpool hp hp₀ valid
  obtain ⟨d, hd⟩ := compiled
  obtain ⟨d₀, hd₀, overlays⟩ := forward d hd
  refine ⟨⟨d, d₀, hd, hd₀, overlays⟩, backward compiled₀ ?_ ?_ ?_⟩
  · intro o ho
    obtain rfl := List.mem_singleton.mp ho
    exact ⟨_, rfl⟩
  · intro o ho _
    obtain rfl := List.mem_singleton.mp ho
    rfl
  · intro o ho f hf
    obtain rfl := List.mem_singleton.mp ho
    obtain rfl := List.mem_singleton.mp hf
    rfl

end Pipeline

end SchemaStack
