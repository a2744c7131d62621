import SchemaStack.Directive.Auth
import SchemaStack.Proofs.Directive.Relations
/-!
# The build after authorization

Authorization asks of each type that its rules can be read and that it is a model where it has any.
It then amends the API and the resolvers of the types with rules, which are all there, so it cannot
fail in another way. What it leaves alone is as the stage found it.
-/

namespace SchemaStack

namespace AuthRules

lemma isSome_of_ofType? {o : ObjectType} {rules : Option AuthRules} (h : ofType? o = .ok rules) :
    rules.isSome = (o.directive? "auth").isSome := by
  rw [ofType?] at h
  cases hd : o.directive? "auth" with
  | none =>
    rw [hd] at h
    cases h
    rfl
  | some d =>
    rw [hd] at h
    cases hr : ofArguments d.arguments with
    | error f =>
      simp only [hr] at h
      cases h
    | ok r =>
      simp only [hr] at h
      cases h
      rfl

end AuthRules

namespace Auth

/-- A type whose rules can be read, and that is a model if it has any. -/
structure Guardable (o : ObjectType) : Prop where
  readable : ∃ rules, AuthRules.ofType? o = .ok rules
  model : (o.directive? "auth").isSome → (o.directive? "model").isSome

lemma mem_modelTypes_of_rules {s : Schema} (guardable : ∀ o ∈ s.objects, Guardable o)
    {o : ObjectType} (ho : o ∈ s.objects) {rules : AuthRules}
    (hr : AuthRules.ofType? o = .ok (some rules)) : o ∈ s.modelTypes := by
  have hauth : (o.directive? "auth").isSome := AuthRules.isSome_of_ofType? hr ▸ rfl
  exact Schema.mem_modelTypes.mpr ⟨ho, (guardable o ho).model hauth⟩

/-! ## Guards of any build -/

/-- The guards of the resolvers of one type. -/
def guardsOf (c : Context) (o : ObjectType) : List Amendment :=
  match AuthRules.ofType? o, c.artifacts.model? o.name with
  | .ok (some rules), some m => m.resolvers.flatMap fun (op, id) => guard c.document rules op id
  | _, _ => []

/-- A type whose rules can be read, and that is a model of the build if it has any. -/
def Admits (c : Context) (o : ObjectType) : Prop :=
  (∃ rules, AuthRules.ofType? o = .ok rules) ∧
    ((o.directive? "auth").isSome → (c.artifacts.model? o.name).isSome)

lemma guards_cons_eq_ok_iff {c : Context} {o : ObjectType} {os : List ObjectType}
    {as : List Amendment} :
    guards c (o :: os) = .ok as ↔
      Admits c o ∧ ∃ rest, guards c os = .ok rest ∧ as = guardsOf c o ++ rest := by
  rw [guards, Admits]
  cases hr : AuthRules.ofType? o with
  | error e =>
    change Except.error e = _ ↔ _
    simp
  | ok rules? =>
    rw [← AuthRules.isSome_of_ofType? hr]
    cases rules? with
    | none =>
      have hnone : guardsOf c o = [] := by simp only [guardsOf, hr]
      change guards c os = _ ↔ _
      simp [hnone]
    | some rules =>
      cases hm : c.artifacts.model? o.name with
      | none =>
        change Except.error _ = _ ↔ _
        simp
      | some m =>
        have hguards : guardsOf c o =
            m.resolvers.flatMap fun (op, id) => guard c.document rules op id := by
          simp only [guardsOf, hr, hm]
        change (guards c os).bind (fun rest => .ok (_ ++ rest)) = _ ↔ _
        rw [← hguards]
        cases guards c os with
        | error e => simp [Except.bind]
        | ok rest => simp [Except.bind, eq_comm]

lemma guards_eq_ok_iff {c : Context} {os : List ObjectType} {as : List Amendment} :
    guards c os = .ok as ↔ (∀ o ∈ os, Admits c o) ∧ as = os.flatMap (guardsOf c) := by
  induction os generalizing as with
  | nil => simp [guards, eq_comm]
  | cons o os ih =>
    simp only [guards_cons_eq_ok_iff, ih, List.forall_mem_cons, List.flatMap_cons]
    constructor
    · rintro ⟨ho, rest, ⟨hos, rfl⟩, rfl⟩
      exact ⟨⟨ho, hos⟩, rfl⟩
    · rintro ⟨⟨ho, hos⟩, rfl⟩
      exact ⟨ho, _, ⟨hos, rfl⟩, rfl⟩

/-- Guards replace a mapping template of a resolver that is there. -/
lemma of_mem_guardsOf {c : Context} {o : ObjectType} {a : Amendment} (ha : a ∈ guardsOf c o) :
    a.target ∈ c.document.ids ∧ ∃ text, a = ⟨a.target, "RequestMappingTemplate", .string text⟩ ∨
      a = ⟨a.target, "ResponseMappingTemplate", .string text⟩ := by
  rw [guardsOf] at ha
  split at ha
  · obtain ⟨⟨op, id⟩, _, ha⟩ := List.mem_flatMap.mp ha
    dsimp only at ha
    rw [guard] at ha
    split at ha
    · cases ha
    · rename_i r hr
      have hid : id ∈ c.document.ids := Entries.mem_keys_of_get? hr
      rcases List.mem_cons.mp ha with rfl | ha
      · exact ⟨hid, _, Or.inl rfl⟩
      · obtain ⟨_, _, rfl⟩ := Option.map_eq_some_iff.mp (Option.mem_toList.mp ha)
        exact ⟨hid, _, Or.inr rfl⟩
  · cases ha

/-! ## Guards of the standard build -/

/-- The guards of one operation on a type with rules. -/
def guardsOfOperation (rules : AuthRules) (type : String) (op : Operation) : List Amendment :=
  ⟨op.resolverId type, "RequestMappingTemplate",
    .string (Guard.request op rules (Mapping.request op))⟩ ::
    ((Guard.response? op rules).map fun response =>
      ⟨op.resolverId type, "ResponseMappingTemplate", .string response⟩).toList

/-- The guards of a type, with the requests that model types start from. -/
def guardsOfType (o : ObjectType) : List Amendment :=
  match AuthRules.ofType? o with
  | .ok (some rules) => Operation.all.flatMap (guardsOfOperation rules o.name)
  | _ => []

def contribution (pool : String) (s : Schema) : Contribution where
  amendments := apiAmendments pool ++ s.objects.flatMap guardsOfType

/-- The build once authorization is in. -/
def built (pool name : String) (config : BuildConfig) (s : Schema) (rs : List Relation) : Context :=
  (Connection.built name config s rs).merged "auth" (contribution pool s)

lemma model?_isSome_iff {s : Schema} (distinct : (s.objects.map ObjectType.name).Nodup)
    {o : ObjectType} (ho : o ∈ s.objects) :
    ((Model.registered s).model? o.name).isSome ↔ (o.directive? "model").isSome := by
  rw [Option.isSome_iff_exists]
  constructor
  · rintro ⟨m, hm⟩
    obtain ⟨⟨o', ho', hname⟩, _⟩ := Model.model?_registered.mp hm
    obtain ⟨hobject, hmodel⟩ := Schema.mem_modelTypes.mp ho'
    exact Schema.eq_of_name_eq distinct hobject ho hname ▸ hmodel
  · intro hmodel
    exact ⟨_, Model.model?_registered.mpr ⟨⟨o, Schema.mem_modelTypes.mpr ⟨ho, hmodel⟩, rfl⟩, rfl⟩⟩

lemma admits_iff (name : String) (config : BuildConfig) {s : Schema}
    (distinct : (s.objects.map ObjectType.name).Nodup) (rs : List Relation) {o : ObjectType}
    (ho : o ∈ s.objects) : Admits (Connection.built name config s rs) o ↔ Guardable o := by
  rw [Admits, Connection.model?_built, model?_isSome_iff distinct ho]
  exact ⟨fun h => ⟨h.1, h.2⟩, fun h => ⟨h.1, h.2⟩⟩

lemma guardsOf_built {name : String} {config : BuildConfig} {s : Schema}
    (distinct : (s.objects.map ObjectType.name).Nodup) {rs : List Relation} {o : ObjectType}
    (ho : o ∈ s.objects) (guardable : ∀ o ∈ s.objects, Guardable o) :
    guardsOf (Connection.built name config s rs) o = guardsOfType o := by
  obtain ⟨rules?, hr⟩ := (guardable o ho).readable
  cases rules? with
  | none => simp only [guardsOf, guardsOfType, hr]
  | some rules =>
    have hmodel := mem_modelTypes_of_rules guardable ho hr
    have hm : (Connection.built name config s rs).artifacts.model? o.name =
        some (Model.ofType o.name) := by
      rw [Connection.model?_built]
      exact Model.model?_registered.mpr ⟨⟨o, hmodel, rfl⟩, rfl⟩
    simp only [guardsOf, guardsOfType, hr, hm, Model.ofType, List.flatMap_map]
    refine List.flatMap_congr fun op _ => ?_
    rw [guard, Connection.get?_built_resolver name config distinct rs hmodel op]
    rfl

lemma mem_guardsOfOperation {rules : AuthRules} {type : String} {op : Operation} {a : Amendment} :
    a ∈ guardsOfOperation rules type op ↔
      a = ⟨op.resolverId type, "RequestMappingTemplate",
        .string (Guard.request op rules (Mapping.request op))⟩ ∨
      ∃ response, Guard.response? op rules = some response ∧
        a = ⟨op.resolverId type, "ResponseMappingTemplate", .string response⟩ := by
  rw [guardsOfOperation, List.mem_cons, Option.mem_toList, Option.map_eq_some_iff]
  exact or_congr_right (exists_congr fun _ => and_congr_right fun _ => eq_comm)

/-- An amendment is one of the API or a guard of an operation on a type with rules. -/
lemma mem_amendments {pool : String} {s : Schema} {a : Amendment} :
    a ∈ (contribution pool s).amendments ↔ a ∈ apiAmendments pool ∨
      ∃ o ∈ s.objects, ∃ rules, AuthRules.ofType? o = .ok (some rules) ∧
        ∃ op, a ∈ guardsOfOperation rules o.name op := by
  rw [contribution, List.mem_append, List.mem_flatMap]
  refine or_congr_right (exists_congr fun o => and_congr_right fun _ => ?_)
  rw [guardsOfType]
  constructor
  · intro h
    split at h
    · rename_i rules hr
      obtain ⟨op, _, ha⟩ := List.mem_flatMap.mp h
      exact ⟨rules, hr, op, ha⟩
    · cases h
  · rintro ⟨rules, hr, op, ha⟩
    rw [hr]
    refine List.mem_flatMap.mpr ⟨op, ?_, ha⟩
    cases op <;> decide

lemma target_of_mem_guards {rules : AuthRules} {type : String} {op : Operation} {a : Amendment}
    (h : a ∈ guardsOfOperation rules type op) : a.target = op.resolverId type := by
  rcases mem_guardsOfOperation.mp h with rfl | ⟨_, _, rfl⟩ <;> rfl

lemma mem_apiAmendments {pool : String} {a : Amendment} :
    a ∈ apiAmendments pool ↔
      a = ⟨Api.apiId, "AuthenticationType", .string "AMAZON_COGNITO_USER_POOLS"⟩ ∨
        a = ⟨Api.apiId, "UserPoolConfig", userPool pool⟩ := by
  simp [apiAmendments]

lemma target_of_mem_apiAmendments {pool : String} {a : Amendment} (h : a ∈ apiAmendments pool) :
    a.target = Api.apiId := by
  rcases mem_apiAmendments.mp h with rfl | rfl <;> rfl

lemma resolverId_ne_api (op : Operation) (type : String) : op.resolverId type ≠ Api.apiId := by
  intro h
  exact Model.Part.id_notMem_api type (.resolver op) (List.mem_of_mem_head? (congrArg some h.symm))

/-- The API is amended only as a whole. -/
lemma mem_apiAmendments_of_target {pool : String} {s : Schema} {a : Amendment}
    (ha : a ∈ (contribution pool s).amendments) (htarget : a.target = Api.apiId) :
    a ∈ apiAmendments pool := by
  rcases mem_amendments.mp ha with hapi | ⟨o, _, rules, _, op, hop⟩
  · exact hapi
  · exact absurd ((target_of_mem_guards hop).symm.trans htarget) (resolverId_ne_api op o.name)

/-- The guards of a resolver come from the rules of its type. -/
lemma mem_guards_of_target {pool : String} {s : Schema}
    (distinct : (s.objects.map ObjectType.name).Nodup) {a : Amendment}
    (ha : a ∈ (contribution pool s).amendments) {o : ObjectType} (ho : o ∈ s.objects)
    {rules : AuthRules} (hr : AuthRules.ofType? o = .ok (some rules)) {op : Operation}
    (htarget : a.target = op.resolverId o.name) : a ∈ guardsOfOperation rules o.name op := by
  rcases mem_amendments.mp ha with hapi | ⟨o', ho', rules', hr', op', hop⟩
  · exact absurd (htarget.symm.trans (target_of_mem_apiAmendments hapi))
      (resolverId_ne_api op o.name)
  · obtain ⟨rfl, hname⟩ :=
      Operation.resolverId_injective (htarget.symm.trans (target_of_mem_guards hop))
    obtain rfl := Schema.eq_of_name_eq distinct ho ho' hname
    obtain rfl : rules = rules' := Option.some.inj (Except.ok.inj (hr.symm.trans hr'))
    exact hop

lemma apiId_mem_ids (name : String) (config : BuildConfig) (s : Schema) (rs : List Relation) :
    Api.apiId ∈ (Connection.built name config s rs).document.ids :=
  Connection.mem_ids_built (by rw [Model.ids_built]; simp)

lemma resolverId_mem_ids {name : String} {config : BuildConfig} {s : Schema} {rs : List Relation}
    (guardable : ∀ o ∈ s.objects, Guardable o) {o : ObjectType} (ho : o ∈ s.objects)
    {rules : AuthRules} (hr : AuthRules.ofType? o = .ok (some rules)) (op : Operation) :
    op.resolverId o.name ∈ (Connection.built name config s rs).document.ids := by
  have hmodel := mem_modelTypes_of_rules guardable ho hr
  exact Connection.mem_ids_built (Model.mem_ids_built_part name config hmodel (.resolver op))

lemma accepts_contribution {pool name : String} {config : BuildConfig} {s : Schema}
    {rs : List Relation} (guardable : ∀ o ∈ s.objects, Guardable o) :
    (Connection.built name config s rs).Accepts (contribution pool s) where
  fresh := by
    intro id hid
    exact absurd hid List.not_mem_nil
  distinct := List.nodup_nil
  reached := by
    intro a ha
    rcases mem_amendments.mp ha with hapi | ⟨o, ho, rules, hr, op, hop⟩
    · rw [target_of_mem_apiAmendments hapi]
      exact apiId_mem_ids name config s rs
    · rw [target_of_mem_guards hop]
      exact resolverId_mem_ids guardable ho hr op

/-- What the stage makes of the build that it finds: a fault of the schema or the guarded build. -/
lemma step_stage_cases (pool name : String) (config : BuildConfig) {s : Schema}
    (distinct : (s.objects.map ObjectType.name).Nodup) (rs : List Relation) :
    (∃ o ∈ s.objects, ¬ Guardable o) ∧
        (∃ x, Pipeline.step (Connection.built name config s rs) (stage pool) =
          .error (.schema x)) ∨
      (∀ o ∈ s.objects, Guardable o) ∧
        Pipeline.step (Connection.built name config s rs) (stage pool) =
          .ok (built pool name config s rs) := by
  have htypes := Connection.objectTypes_built name config s rs
  cases hguards : guards (Connection.built name config s rs) s.objects with
  | error x =>
    refine Or.inl ⟨?_, x, ?_⟩
    · by_contra hnone
      push Not at hnone
      have hok := guards_eq_ok_iff.mpr ⟨fun o ho =>
        (admits_iff name config distinct rs ho).mpr (hnone o ho), rfl⟩
      rw [hguards] at hok
      cases hok
    · have hk : contribute pool (Connection.built name config s rs) = .error (.schema x) := by
        rw [contribute, htypes, hguards]
      change (contribute pool (Connection.built name config s rs)).bind _ = _
      rw [hk]
      rfl
  | ok as =>
    obtain ⟨hadmits, rfl⟩ := guards_eq_ok_iff.mp hguards
    have guardable : ∀ o ∈ s.objects, Guardable o := fun o ho =>
      (admits_iff name config distinct rs ho).mp (hadmits o ho)
    refine Or.inr ⟨guardable, ?_⟩
    have hsame : s.objects.flatMap (guardsOf (Connection.built name config s rs)) =
        s.objects.flatMap guardsOfType :=
      List.flatMap_congr fun o ho => guardsOf_built distinct ho guardable
    have hk : contribute pool (Connection.built name config s rs) =
        .ok ((Connection.built name config s rs).artifacts, contribution pool s) := by
      rw [contribute, htypes, hguards, hsame]
      rfl
    rw [Pipeline.step_eq (stage pool) hk]
    exact Context.merge_eq_ok_iff.mpr ⟨accepts_contribution guardable, rfl⟩

/-! ## The document of authorization -/

lemma outline_built (pool name : String) (config : BuildConfig) (s : Schema)
    (rs : List Relation) :
    (built pool name config s rs).document.outline =
      (Connection.built name config s rs).document.outline := by
  refine (Context.outline_apply _ _).trans ?_
  exact List.append_nil _

lemma get?_built (pool name : String) (config : BuildConfig) (s : Schema) (rs : List Relation)
    (id : String) :
    (built pool name config s rs).document.get? id =
      ((Connection.built name config s rs).document.get? id).map
        (Context.amended (contribution pool s).amendments id) := by
  refine (Context.get?_apply _ _ _).trans ?_
  exact congrArg (Option.map _) (Option.or_none ..)

/-- A property that nothing amends is as it was. -/
lemma property?_built_of_untouched {pool name : String} {config : BuildConfig} {s : Schema}
    {rs : List Relation} {id key : String}
    (untouched : ∀ a ∈ (contribution pool s).amendments, a.target = id → a.property ≠ key) :
    (built pool name config s rs).document.property? id key =
      (Connection.built name config s rs).document.property? id key := by
  rw [Document.property?, Document.property?, get?_built]
  cases (Connection.built name config s rs).document.get? id with
  | none => rfl
  | some r => exact Context.property?_amended_of_untouched untouched r

/-- A property that is amended has the value that its amendments agree on. -/
lemma property?_built_of_agree {pool name : String} {config : BuildConfig} {s : Schema}
    {rs : List Relation} {id key : String} {v : Json}
    (present : id ∈ (Connection.built name config s rs).document.ids)
    (amended : ⟨id, key, v⟩ ∈ (contribution pool s).amendments)
    (agree : ∀ a ∈ (contribution pool s).amendments,
      a.target = id → a.property = key → a.value = v) :
    (built pool name config s rs).document.property? id key = some v := by
  obtain ⟨r, hr⟩ := Entries.exists_get?_of_mem_keys present
  change (Connection.built name config s rs).document.get? id = some r at hr
  rw [Document.property?, get?_built, hr]
  exact Context.property?_amended_of_agree ⟨_, amended, rfl, rfl⟩ agree r

/-- What authorization amends of the API has the amended values. -/
lemma property?_built_api {pool : String} (name : String) (config : BuildConfig) (s : Schema)
    (rs : List Relation) {a : Amendment} (ha : a ∈ apiAmendments pool) :
    (built pool name config s rs).document.property? Api.apiId a.property = some a.value := by
  refine property?_built_of_agree (apiId_mem_ids name config s rs) ?amended ?agree
  case amended =>
    rw [← target_of_mem_apiAmendments ha]
    exact mem_amendments.mpr (Or.inl ha)
  case agree =>
    intro b hb htarget hproperty
    have hb' := mem_apiAmendments.mp (mem_apiAmendments_of_target hb htarget)
    rcases mem_apiAmendments.mp ha with rfl | rfl <;> rcases hb' with rfl | rfl
    · rfl
    · simp at hproperty
    · simp at hproperty
    · rfl

section Ruled

variable {pool name : String} {config : BuildConfig} {s : Schema} {rs : List Relation}
variable {o : ObjectType} {rules : AuthRules}

lemma request_built (distinct : (s.objects.map ObjectType.name).Nodup)
    (guardable : ∀ o ∈ s.objects, Guardable o) (ho : o ∈ s.objects)
    (hr : AuthRules.ofType? o = .ok (some rules)) (op : Operation) :
    (built pool name config s rs).document.property? (op.resolverId o.name)
        "RequestMappingTemplate" =
      some (.string (Guard.request op rules (Mapping.request op))) := by
  refine property?_built_of_agree (resolverId_mem_ids guardable ho hr op)
    (mem_amendments.mpr (Or.inr ⟨o, ho, rules, hr, op, List.mem_cons_self⟩)) ?_
  intro a ha htarget hproperty
  rcases mem_guardsOfOperation.mp (mem_guards_of_target distinct ha ho hr htarget) with
    rfl | ⟨_, _, rfl⟩
  · rfl
  · simp at hproperty

lemma response_built (distinct : (s.objects.map ObjectType.name).Nodup)
    (guardable : ∀ o ∈ s.objects, Guardable o) (ho : o ∈ s.objects)
    (hr : AuthRules.ofType? o = .ok (some rules)) {op : Operation} {response : String}
    (hresponse : Guard.response? op rules = some response) :
    (built pool name config s rs).document.property? (op.resolverId o.name)
        "ResponseMappingTemplate" = some (.string response) := by
  refine property?_built_of_agree (resolverId_mem_ids guardable ho hr op)
    (mem_amendments.mpr (Or.inr ⟨o, ho, rules, hr, op,
      mem_guardsOfOperation.mpr (Or.inr ⟨response, hresponse, rfl⟩)⟩)) ?_
  intro a ha htarget hproperty
  rcases mem_guardsOfOperation.mp (mem_guards_of_target distinct ha ho hr htarget) with
    rfl | ⟨response', hresponse', rfl⟩
  · simp at hproperty
  · rw [Option.some.inj (hresponse.symm.trans hresponse')]

end Ruled

end Auth

end SchemaStack
