import SchemaStack.Proofs.Build.History
import SchemaStack.Proofs.Schema.Validity
import SchemaStack.Proofs.Directive.Naming
/-!
# The build after the model types

The first two stages always find the same kind of build, so what they leave can be written down:
the types of the schema in declaration order, the model types among them, and a document of the
API followed by the parts of each model type. The second stage fails only on a model type that
does not check.
-/

namespace SchemaStack

namespace Schema

/-- The types with `@model`, in declaration order. -/
def modelTypes (s : Schema) : List ObjectType :=
  s.objects.filter fun o => (o.directive? "model").isSome

lemma mem_modelTypes {s : Schema} {o : ObjectType} :
    o ∈ s.modelTypes ↔ o ∈ s.objects ∧ (o.directive? "model").isSome := List.mem_filter

lemma nodup_modelTypes {s : Schema} (distinct : (s.objects.map ObjectType.name).Nodup) :
    (s.modelTypes.map ObjectType.name).Nodup :=
  (List.filter_sublist.map ObjectType.name).nodup distinct

lemma eq_of_name_eq {s : Schema} (distinct : (s.objects.map ObjectType.name).Nodup)
    {o o' : ObjectType} (ho : o ∈ s.objects) (ho' : o' ∈ s.objects) (h : o.name = o'.name) :
    o = o' :=
  List.inj_on_of_nodup_map distinct ho ho' h

end Schema

/-! ## The API -/

namespace Api

/-- What there is to know about a schema once its types are registered. -/
def registered (s : Schema) : Artifacts where
  types := s.objects.map fun o => (o.name, o)
  enums := s.enums.map EnumType.name

/-- Where names are distinct, types are registered in the order of the schema. -/
lemma registerTypes_empty {s : Schema} (distinct : (s.objects.map ObjectType.name).Nodup) :
    ({} : Artifacts).registerTypes s = registered s := by
  have htypes : s.objects.foldl (fun ts o => Entries.insert ts o.name o) [] =
      s.objects.map fun o => (o.name, o) :=
    (Entries.foldl_insert_of_nodup ObjectType.name id s.objects [] (by simpa using distinct)).trans
      (List.nil_append _)
  simp only [Artifacts.registerTypes, htypes, registered]

lemma objectTypes_registered (s : Schema) : (registered s).objectTypes = s.objects := by
  rw [registered, Artifacts.objectTypes, List.map_map]
  exact List.map_id s.objects

lemma types_registered {s : Schema} (distinct : (s.objects.map ObjectType.name).Nodup)
    {name : String} {o : ObjectType} :
    (registered s).types.get? name = some o ↔ o ∈ s.objects ∧ o.name = name := by
  constructor
  · intro h
    obtain ⟨o', ho', heq⟩ := List.mem_map.mp (Entries.mem_of_get? h)
    obtain ⟨hname, rfl⟩ := Prod.mk.inj heq
    exact ⟨ho', hname⟩
  · rintro ⟨ho, rfl⟩
    refine Entries.get?_of_mem ?_ (List.mem_map.mpr ⟨o, ho, rfl⟩)
    rw [Entries.keys, registered, List.map_map]
    exact distinct

/-- The build after the first stage. -/
def built (name : String) (s : Schema) : Context :=
  { Context.start s with artifacts := registered s }.merged "api" (contribution name s)

lemma ids_built (name : String) (s : Schema) :
    (built name s).document.ids = [apiId, keyId, schemaId] := rfl

lemma keys_owners_built (name : String) (s : Schema) :
    Entries.keys (built name s).owners = [apiId, keyId, schemaId] := rfl

lemma step_stage (name : String) {s : Schema} (distinct : (s.objects.map ObjectType.name).Nodup) :
    Pipeline.step (.start s) (stage name) = .ok (built name s) := by
  have hk : (stage name).contribute (.start s) = .ok (registered s, contribution name s) := by
    rw [← registerTypes_empty distinct]
    rfl
  rw [Pipeline.step_eq (stage name) hk]
  refine Context.merge_eq_ok_iff.mpr ⟨⟨?_, ?_, ?_⟩, rfl⟩
  · intro id _
    exact List.not_mem_nil
  · change [apiId, keyId, schemaId].Nodup
    decide
  · intro a ha
    exact absurd ha List.not_mem_nil

end Api

/-! ## The model types -/

namespace Model

/-- The artifacts once the model types are registered. -/
def registered (s : Schema) : Artifacts :=
  { Api.registered s with models := s.modelTypes.map fun o => (o.name, ofType o.name) }

/-- The extension of the schema by what goes with its model types. -/
def extension (s : Schema) : List Amendment :=
  if s.modelTypes.isEmpty then []
  else
    [⟨Api.schemaId, "Definition",
      .string (blocks [s.text, schemaText (s.enums.map EnumType.name) s.modelTypes])⟩]

def contribution (config : BuildConfig) (s : Schema) : Contribution where
  entries := (s.modelTypes.map ObjectType.name).flatMap (entries config)
  amendments := extension s

/-- The build after the second stage. -/
def built (name : String) (config : BuildConfig) (s : Schema) : Context :=
  { Api.built name s with artifacts := registered s }.merged "model" (contribution config s)

lemma target_of_mem_extension {s : Schema} {a : Amendment} (h : a ∈ extension s) :
    a.target = Api.schemaId ∧ a.property = "Definition" := by
  rw [extension] at h
  split at h
  · cases h
  · rw [List.mem_singleton] at h
    subst h
    exact ⟨rfl, rfl⟩

lemma mem_ids_contribution {config : BuildConfig} {s : Schema} {id : String} :
    id ∈ (contribution config s).ids ↔ ∃ o ∈ s.modelTypes, ∃ part : Part, id = part.id o.name := by
  simp only [Contribution.ids, contribution, Entries.keys, List.mem_map, List.mem_flatMap,
    exists_exists_and_eq_and, entries_eq]
  constructor
  · rintro ⟨e, ⟨o, ho, part, _, rfl⟩, rfl⟩
    exact ⟨o, ho, part, rfl⟩
  · rintro ⟨o, ho, part, rfl⟩
    exact ⟨_, ⟨o, ho, part, Part.mem_all part, rfl⟩, rfl⟩

/-- A model is found under the name of its type. -/
lemma model?_registered {s : Schema} {name : String} {m : Model} :
    (registered s).model? name = some m ↔
      (∃ o ∈ s.modelTypes, o.name = name) ∧ m = ofType name := by
  rw [Artifacts.model?, registered, Entries.get?_map_key, Option.map_eq_some_iff]
  constructor
  · rintro ⟨o, hfind, rfl⟩
    have hname : o.name = name := by simpa using List.find?_some hfind
    exact ⟨⟨o, List.mem_of_find?_eq_some hfind, hname⟩, by rw [hname]⟩
  · rintro ⟨⟨o, ho, rfl⟩, rfl⟩
    cases hfind : s.modelTypes.find? fun o' => o'.name == o.name with
    | none => exact absurd (List.find?_eq_none.mp hfind o ho) (by simp)
    | some o' =>
      have hname : o'.name = o.name := by simpa using List.find?_some hfind
      exact ⟨o', rfl, by rw [hname]⟩

lemma accepts_contribution (name : String) (config : BuildConfig) {s : Schema}
    (distinct : (s.objects.map ObjectType.name).Nodup) (a : Artifacts) :
    ({ Api.built name s with artifacts := a } : Context).Accepts (contribution config s) where
  fresh := by
    intro id hid
    obtain ⟨o, _, part, rfl⟩ := mem_ids_contribution.mp hid
    exact Part.id_notMem_api o.name part
  distinct := nodup_keys_flatMap_entries config (Schema.nodup_modelTypes distinct)
  reached := by
    intro a ha
    rw [(target_of_mem_extension ha).1]
    change Api.schemaId ∈ (Api.built name s).document.ids
    rw [Api.ids_built]
    decide

/-- Registering model types leaves the types and the relations alone. -/
lemma foldl_registerModel (os : List ObjectType) (a : Artifacts) :
    os.foldl (fun a o => a.registerModel (ofType o.name)) a =
      { a with models := os.foldl (fun ms o => ms.insert o.name (ofType o.name)) a.models } := by
  induction os generalizing a with
  | nil => rfl
  | cons o os ih => exact ih _

/-- Upon the API the stage contributes for all model types, or it finds a fault in one of them. -/
lemma contribute_built (name : String) (config : BuildConfig) {s : Schema}
    (distinct : (s.objects.map ObjectType.name).Nodup) :
    contribute config (Api.built name s) =
      match checkAll s.modelTypes with
      | .error e => .error (.schema e)
      | .ok () => .ok (registered s, contribution config s) := by
  have htypes : types (Api.built name s).artifacts = s.modelTypes := by
    change (Api.registered s).objectTypes.filter _ = _
    rw [Api.objectTypes_registered]
    rfl
  have hmodels : s.modelTypes.foldl (fun a o => a.registerModel (ofType o.name))
      (Api.built name s).artifacts = registered s := by
    rw [foldl_registerModel]
    have hinsert := Entries.foldl_insert_of_nodup ObjectType.name (fun o => ofType o.name)
      s.modelTypes [] (by simpa using Schema.nodup_modelTypes distinct)
    exact congrArg (fun ms => { Api.registered s with models := ms })
      (hinsert.trans (List.nil_append _))
  have hextension : schemaAmendments (Api.built name s) s.modelTypes = .ok (extension s) := by
    rw [schemaAmendments, extension]
    split <;> rfl
  have hentries : (s.modelTypes.flatMap fun o => entries config o.name) =
      (contribution config s).entries := (List.flatMap_map ..).symm
  rw [contribute, htypes]
  cases checkAll s.modelTypes with
  | error e => rfl
  | ok u =>
    simp only [hextension, hmodels, hentries]
    rfl

lemma step_stage (name : String) (config : BuildConfig) {s : Schema}
    (distinct : (s.objects.map ObjectType.name).Nodup) :
    Pipeline.step (Api.built name s) (stage config) =
      match checkAll s.modelTypes with
      | .error e => .error (.schema e)
      | .ok () => .ok (built name config s) := by
  have hk := contribute_built name config distinct
  cases hc : checkAll s.modelTypes with
  | error e =>
    rw [hc] at hk
    change (contribute config (Api.built name s)).bind _ = _
    rw [hk]
    rfl
  | ok u =>
    rw [hc] at hk
    rw [Pipeline.step_eq (stage config) hk]
    exact Context.merge_eq_ok_iff.mpr ⟨accepts_contribution name config distinct _, rfl⟩

/-! ## The document of the model types -/

lemma ids_built (name : String) (config : BuildConfig) (s : Schema) :
    (built name config s).document.ids =
      [Api.apiId, Api.keyId, Api.schemaId] ++ (contribution config s).ids :=
  Context.ids_apply _ _

lemma keys_owners_built (name : String) (config : BuildConfig) (s : Schema) :
    Entries.keys (built name config s).owners = (built name config s).document.ids := by
  rw [ids_built]
  exact Context.keys_owners_merged _ _ _

lemma get?_built (name : String) (config : BuildConfig) (s : Schema) (id : String) :
    (built name config s).document.get? id =
      (((Api.built name s).document.get? id).or
        (Entries.get? (contribution config s).entries id)).map
          (Context.amended (extension s) id) :=
  Context.get?_apply _ _ _

lemma mem_ids_built_part (name : String) (config : BuildConfig) {s : Schema} {o : ObjectType}
    (ho : o ∈ s.modelTypes) (part : Part) :
    part.id o.name ∈ (built name config s).document.ids := by
  rw [ids_built]
  exact List.mem_append_right _ (mem_ids_contribution.mpr ⟨o, ho, part, rfl⟩)

/-- The parts of a model type stand in the document as they were contributed. -/
lemma get?_built_part (name : String) (config : BuildConfig) {s : Schema}
    (distinct : (s.objects.map ObjectType.name).Nodup) {o : ObjectType} (ho : o ∈ s.modelTypes)
    (part : Part) :
    (built name config s).document.get? (part.id o.name) = some (part.resource config o.name) := by
  have hmem : (part.id o.name, part.resource config o.name) ∈ (contribution config s).entries := by
    refine List.mem_flatMap.mpr ⟨o.name, List.mem_map.mpr ⟨o, ho, rfl⟩, ?_⟩
    rw [entries_eq]
    exact List.mem_map.mpr ⟨part, Part.mem_all part, rfl⟩
  have hentry := Entries.get?_of_mem
    (nodup_keys_flatMap_entries config (Schema.nodup_modelTypes distinct)) hmem
  have hapi : (Api.built name s).document.get? (part.id o.name) = none :=
    Entries.get?_eq_none_iff.mpr (Part.id_notMem_api o.name part)
  have huntargeted : ∀ a ∈ extension s, a.target ≠ part.id o.name := by
    intro a ha heq
    have hschema := heq.symm.trans (target_of_mem_extension ha).1
    exact Part.id_notMem_api o.name part (by simp [hschema])
  rw [get?_built, hapi, Option.none_or]
  exact (congrArg _ hentry).trans
    (congrArg some (Context.amended_of_untargeted huntargeted _))

/-- Every resource belongs to the API or is a part of a model type. -/
lemma get?_built_cases {name : String} {config : BuildConfig} {s : Schema}
    (distinct : (s.objects.map ObjectType.name).Nodup) {id : String} {r : Resource}
    (h : (built name config s).document.get? id = some r) :
    (id ∈ [Api.apiId, Api.keyId, Api.schemaId] ∧ r.type ≠ .resolver) ∨
      ∃ o ∈ s.modelTypes, ∃ part : Part, id = part.id o.name ∧ r = part.resource config o.name := by
  cases hapi : (Api.built name s).document.get? id with
  | some r' =>
    have hmem : id ∈ [Api.apiId, Api.keyId, Api.schemaId] := Entries.mem_keys_of_get? hapi
    rw [get?_built, hapi] at h
    obtain rfl := Option.some.inj h
    refine Or.inl ⟨hmem, ?_⟩
    rw [Context.type_amended]
    have hentry : (id, r') ∈ (Api.contribution name s).entries := Entries.mem_of_get? hapi
    simp only [Api.contribution, List.mem_cons, List.not_mem_nil, or_false, Prod.mk.injEq] at hentry
    rcases hentry with ⟨_, rfl⟩ | ⟨_, rfl⟩ | ⟨_, rfl⟩ <;> simp [Api.api, Api.key, Api.schema]
  | none =>
    have hmem : id ∈ (contribution config s).ids := by
      have hids : id ∈ (built name config s).document.ids := Entries.mem_keys_of_get? h
      rw [ids_built] at hids
      exact (List.mem_append.mp hids).resolve_left (Entries.get?_eq_none_iff.mp hapi)
    obtain ⟨o, ho, part, rfl⟩ := mem_ids_contribution.mp hmem
    have hpart := get?_built_part name config distinct ho part
    exact Or.inr ⟨o, ho, part, rfl, Option.some.inj (h.symm.trans hpart)⟩

end Model

end SchemaStack
