import SchemaStack.Proofs.Directive.Indexing
import SchemaStack.Proofs.Directive.ResourceList
/-!
# What stands in a compiled document

Every resource of a compiled document was contributed by a stage. Its properties are those that it
was contributed with, but for the text of the schema, for the attributes and indexes of tables and
for what authorization amends.
-/

namespace SchemaStack

/-- Amendments that say the same about a property make the same of it. -/
lemma Context.property?_amended_congr {as as' : List Amendment} {id key : String}
    (same : ∀ v, ⟨id, key, v⟩ ∈ as ↔ ⟨id, key, v⟩ ∈ as')
    (agree : ∀ v v', ⟨id, key, v⟩ ∈ as → ⟨id, key, v'⟩ ∈ as → v = v') {r r' : Resource}
    (base : r.property? key = r'.property? key) :
    (amended as id r).property? key = (amended as' id r').property? key := by
  by_cases h : ∃ v, ⟨id, key, v⟩ ∈ as
  · obtain ⟨v, hv⟩ := h
    have left : (amended as id r).property? key = some v := by
      refine property?_amended_of_agree ⟨_, hv, rfl, rfl⟩ ?_ r
      rintro ⟨_, _, w⟩ hw rfl rfl
      exact agree w v hw hv
    have right : (amended as' id r').property? key = some v := by
      refine property?_amended_of_agree ⟨_, (same v).mp hv, rfl, rfl⟩ ?_ r'
      rintro ⟨_, _, w⟩ hw rfl rfl
      exact agree w v ((same w).mpr hw) hv
    rw [left, right]
  · rw [property?_amended_of_untouched, property?_amended_of_untouched]
    · exact base
    · rintro ⟨_, _, w⟩ hw rfl rfl
      exact h ⟨w, (same w).mpr hw⟩
    · rintro ⟨_, _, w⟩ hw rfl rfl
      exact h ⟨w, hw⟩

namespace Auth

/-- No two amendments of authorization give one property two values. -/
lemma value_eq_of_mem_amendments {pool : String} {s : Schema}
    (distinct : (s.objects.map ObjectType.name).Nodup) {id key : String} {v w : Json}
    (hv : ⟨id, key, v⟩ ∈ (contribution pool s).amendments)
    (hw : ⟨id, key, w⟩ ∈ (contribution pool s).amendments) : v = w := by
  rcases mem_amendments.mp hv with hapi | ⟨o, ho, rules, hr, op, hop⟩
  · have htarget : id = Api.apiId := target_of_mem_apiAmendments hapi
    have hapi' := mem_apiAmendments_of_target hw htarget
    rcases mem_apiAmendments.mp hapi with h | h <;>
      rcases mem_apiAmendments.mp hapi' with h' | h' <;>
      obtain ⟨_, hkey, rfl⟩ := Amendment.mk.inj h <;>
      obtain ⟨_, hkey', rfl⟩ := Amendment.mk.inj h' <;>
      first | rfl | exact absurd (hkey.symm.trans hkey') (by decide)
  · have htarget : id = op.resolverId o.name := target_of_mem_guards hop
    have hop' := mem_guards_of_target distinct hw ho hr htarget
    rcases mem_guardsOfOperation.mp hop with h | ⟨x, hx, h⟩ <;>
      rcases mem_guardsOfOperation.mp hop' with h' | ⟨x', hx', h'⟩ <;>
      obtain ⟨_, hkey, rfl⟩ := Amendment.mk.inj h <;>
      obtain ⟨_, hkey', rfl⟩ := Amendment.mk.inj h' <;>
      first
      | rfl
      | exact absurd (hkey.symm.trans hkey') (by decide)
      | rw [Option.some.inj (hx.symm.trans hx')]

/-- What authorization amends, where it is in the pipeline. -/
def overlay (pool : Option String) (s : Schema) : List Amendment :=
  pool.elim [] fun pool => (contribution pool s).amendments

variable {pool : Option String} {s : Schema}

lemma mem_overlay {a : Amendment} :
    a ∈ overlay pool s ↔ ∃ id, pool = some id ∧ a ∈ (contribution id s).amendments := by
  cases pool with
  | none => simp [overlay]
  | some id => simp [overlay]

lemma value_eq_of_mem_overlay (distinct : (s.objects.map ObjectType.name).Nodup)
    {id key : String} {v w : Json} (hv : ⟨id, key, v⟩ ∈ overlay pool s)
    (hw : ⟨id, key, w⟩ ∈ overlay pool s) : v = w := by
  obtain ⟨n, rfl, hv⟩ := mem_overlay.mp hv
  obtain ⟨n', hn', hw⟩ := mem_overlay.mp hw
  obtain rfl := Option.some.inj hn'
  exact value_eq_of_mem_amendments distinct hv hw

/-- Authorization amends the API and resolvers of model types. -/
lemma target_of_mem_overlay (guardable : pool.isSome → ∀ o ∈ s.objects, Guardable o)
    {a : Amendment} (h : a ∈ overlay pool s) :
    a.target = Api.apiId ∨ ∃ o ∈ s.modelTypes, ∃ op : Operation, a.target = op.resolverId o.name := by
  obtain ⟨id, rfl, ha⟩ := mem_overlay.mp h
  rcases mem_amendments.mp ha with hapi | ⟨o, ho, rules, hr, op, hop⟩
  · exact Or.inl (target_of_mem_apiAmendments hapi)
  · exact Or.inr ⟨o, mem_modelTypes_of_rules (guardable rfl) ho hr, op, target_of_mem_guards hop⟩

end Auth

namespace Connection

variable {name : String} {config : BuildConfig} {s : Schema} {rs : List Relation}

/-- The properties of what is contributed that the stages before authorization set again. -/
inductive Rewritten (s : Schema) : String → String → Prop
  | definition : Rewritten s Api.schemaId "Definition"
  | attributes {o : ObjectType} : o ∈ s.modelTypes →
      Rewritten s (o.name ++ "Table") "AttributeDefinitions"
  | indexes {o : ObjectType} : o ∈ s.modelTypes →
      Rewritten s (o.name ++ "Table") "GlobalSecondaryIndexes"

lemma rewritten_extension (s : Schema) :
    ∀ a ∈ Model.extension s, Rewritten s a.target a.property := by
  intro a ha
  obtain ⟨htarget, hproperty⟩ := Model.target_of_mem_extension ha
  rw [htarget, hproperty]
  exact .definition

lemma rewritten_contribution (name : String) (config : BuildConfig) (s : Schema)
    (rs : List Relation) :
    ∀ a ∈ (contribution name config s rs).amendments, Rewritten s a.target a.property := by
  intro a ha
  obtain ⟨o, ho, htarget⟩ := target_of_mem_amendments ha
  rw [htarget]
  rcases Wiring.property_of_mem_amendments ha with hproperty | hproperty <;> rw [hproperty]
  · exact .attributes ho
  · exact .indexes ho

/-- A resource with the properties of another, but for those that are set again. -/
def Keeps (s : Schema) (id : String) (r r₀ : Resource) : Prop :=
  ∀ key, ¬ Rewritten s id key → r₀.property? key = r.property? key

lemma keeps_amended {as : List Amendment} (h : ∀ a ∈ as, Rewritten s a.target a.property)
    (id : String) (r : Resource) : Keeps s id r (Context.amended as id r) := by
  intro key kept
  refine Context.property?_amended_of_untouched (fun a ha htarget hproperty => kept ?_) r
  rw [← htarget, ← hproperty]
  exact h a ha

variable (rs) in
lemma exists_built_of_model {id : String} {r : Resource}
    (h : (Model.built name config s).document.get? id = some r) :
    ∃ r₀, (built name config s rs).document.get? id = some r₀ ∧ Keeps s id r r₀ := by
  refine ⟨_, ?_, keeps_amended (rewritten_contribution name config s rs) id r⟩
  rw [get?_built, h]
  rfl

lemma exists_built_of_api {id : String} {r : Resource}
    (h : (id, r) ∈ (Api.contribution name s).entries) :
    ∃ r₀, (built name config s rs).document.get? id = some r₀ ∧ Keeps s id r r₀ := by
  have distinct : (Entries.keys (Api.contribution name s).entries).Nodup := by
    change [Api.apiId, Api.keyId, Api.schemaId].Nodup
    decide
  have hapi : (Api.built name s).document.get? id = some r := Entries.get?_of_mem distinct h
  have hmodel : (Model.built name config s).document.get? id =
      some (Context.amended (Model.extension s) id r) := by
    rw [Model.get?_built, hapi]
    rfl
  obtain ⟨r₀, hr₀, keeps⟩ := exists_built_of_model rs hmodel
  have keeps' := keeps_amended (rewritten_extension s) id r
  exact ⟨r₀, hr₀, fun key kept => (keeps key kept).trans (keeps' key kept)⟩

/-- What is contributed stands in the document before authorization as it was, but for what is set
again. -/
lemma exists_built_of_contributed (distinct : (s.objects.map ObjectType.name).Nodup)
    (resolved : Resolved s rs)
    (accepts : (Model.built name config s).Accepts (contribution name config s rs)) {id : String}
    {r : Resource} (h : Wiring.Contributed name config s rs id r) :
    ∃ r₀, (built name config s rs).document.get? id = some r₀ ∧ Keeps s id r r₀ := by
  cases h with
  | api => exact exists_built_of_api List.mem_cons_self
  | key => exact exists_built_of_api (by simp [Api.contribution])
  | schema => exact exists_built_of_api (by simp [Api.contribution])
  | part part ho =>
    exact exists_built_of_model rs (Model.get?_built_part name config distinct ho part)
  | relation hr => exact ⟨_, get?_built_relation resolved accepts hr, fun _ _ => rfl⟩

end Connection

namespace Pipeline

/-- A schema, its relations and the document that they are compiled to. -/
structure Assembled (c : BuildConfig) (s : Schema) (rs : List Relation) (d : Document) : Prop where
  founded : Founded c.apiName c c.connections s rs
  relations : Connection.relations (Model.registered s) = .ok rs
  guardable : c.userPool.isSome → ∀ o ∈ s.objects, Auth.Guardable o
  get? : ∀ id, d.get? id = ((Connection.built c.apiName c s rs).document.get? id).map
    (Context.amended (Auth.overlay c.userPool s) id)

lemma assembled_of_compileSchema {c : BuildConfig} {p : Pipeline} (hp : standard c = .ok p)
    {s : Schema} (distinct : (s.objects.map ObjectType.name).Nodup) {d : Document}
    (compiled : p.compileSchema s = .ok d) : ∃ rs, Assembled c s rs d := by
  cases hpool : c.userPool with
  | none =>
    obtain ⟨handled, rs, founded, rfl⟩ :=
      (compileSchema_eq_ok_iff_of_none hpool hp distinct).mp compiled
    refine ⟨rs, founded, relations_of_founded hp handled founded, ?_, fun id => ?_⟩
    · rw [hpool]
      exact fun h => absurd h Bool.false_ne_true
    · rw [hpool]
      exact Option.map_id'.symm
  | some pool =>
    obtain ⟨handled, guardable, rs, founded, rfl⟩ :=
      (compileSchema_eq_ok_iff_of_some hpool hp distinct).mp compiled
    refine ⟨rs, founded, relations_of_founded hp handled founded, fun _ => guardable, fun id => ?_⟩
    rw [hpool]
    exact Auth.get?_built pool c.apiName c s rs id

namespace Assembled

variable {c : BuildConfig} {s : Schema} {rs : List Relation} {d : Document}

lemma resolved (h : Assembled c s rs d) (distinct : (s.objects.map ObjectType.name).Nodup) :
    Connection.Resolved s rs := h.founded.resolved distinct

lemma exists_contributed (h : Assembled c s rs d)
    (distinct : (s.objects.map ObjectType.name).Nodup) {id : String} (hid : id ∈ d.ids) :
    ∃ r, Wiring.Contributed c.apiName c s rs id r := by
  obtain ⟨r, hr⟩ := Entries.exists_get?_of_mem_keys hid
  obtain ⟨r₀, hr₀, _⟩ := Option.map_eq_some_iff.mp ((h.get? id).symm.trans hr)
  obtain ⟨r', hcontributed, _⟩ :=
    (Wiring.stands_connection_built (h.resolved distinct) _ (Entries.mem_of_get? hr₀)).origin
  exact ⟨r', hcontributed⟩

/-- But for what is set again, a property is as it was contributed, with the amendments of
authorization. -/
lemma property?_eq (h : Assembled c s rs d) (distinct : (s.objects.map ObjectType.name).Nodup)
    {id : String} {r : Resource} (contributed : Wiring.Contributed c.apiName c s rs id r)
    {key : String} (kept : ¬ Connection.Rewritten s id key) :
    d.property? id key = (Context.amended (Auth.overlay c.userPool s) id r).property? key := by
  obtain ⟨r₀, hr₀, keeps⟩ := Connection.exists_built_of_contributed distinct
    (h.resolved distinct) h.founded.accepts contributed
  have hget : d.get? id = some (Context.amended (Auth.overlay c.userPool s) id r₀) := by
    rw [h.get?, hr₀]
    rfl
  rw [Document.property?, hget]
  exact Context.property?_amended_congr (fun v => Iff.rfl)
    (fun v w => Auth.value_eq_of_mem_overlay distinct) (keeps key kept)

/-- What authorization amends was there before the relations. -/
lemma target_ne_resolverId (h : Assembled c s rs d)
    (distinct : (s.objects.map ObjectType.name).Nodup) {r : Relation} (hr : r ∈ rs) :
    ∀ a ∈ Auth.overlay c.userPool s, a.target ≠ Connection.resolverId r := by
  intro a ha heq
  refine Connection.resolverId_notMem (h.resolved distinct) h.founded.accepts hr ?_
  rw [← heq]
  rcases Auth.target_of_mem_overlay h.guardable ha with hapi | ⟨o, ho, op, hop⟩
  · rw [hapi, Model.ids_built]
    exact List.mem_append_left _ List.mem_cons_self
  · rw [hop]
    exact Model.mem_ids_built_part c.apiName c ho (.resolver op)

lemma get?_relation (h : Assembled c s rs d) (distinct : (s.objects.map ObjectType.name).Nodup)
    {r : Relation} (hr : r ∈ rs) :
    d.get? (Connection.resolverId r) =
      some (Connection.resolverResource r (Model.ofType r.target)) := by
  rw [h.get?, Connection.get?_built_relation (h.resolved distinct) h.founded.accepts hr]
  exact congrArg some (Context.amended_of_untargeted (h.target_ne_resolverId distinct hr) _)

end Assembled

end Pipeline

end SchemaStack
