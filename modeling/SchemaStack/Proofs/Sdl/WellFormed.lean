import SchemaStack.Proofs.Sdl.Compiled
/-!
# Well-formed declarations

Declarations are well formed if no name is declared twice where it has to be one's own, and nothing
undeclared is referred to. The check of a schema looks at the types of its source alone, and at
their fields. So the compiled text can go wrong in two ways: a type of the source has a name that
compiling gives to another one, or an enum has a value twice. It goes wrong in no other way.
-/

namespace SchemaStack

namespace Sdl

/-! ## Well-formedness -/

namespace Declaration

def fieldNames : Declaration → List String
  | .type _ ms => ms.map Member.name
  | .input _ ss => ss.map Slot.name
  | .enum _ _ => []

def values : Declaration → List String
  | .enum _ vs => vs
  | _ => []

/-- The types of fields and of arguments. -/
def references : Declaration → List String
  | .type _ ms => ms.flatMap fun m => m.type.base :: m.arguments.map fun a => a.type.base
  | .input _ ss => ss.map fun s => s.type.base
  | .enum _ _ => []

end Declaration

structure WellFormed (ds : List Declaration) : Prop where
  types : (ds.map Declaration.name).Nodup
  fields : ∀ d ∈ ds, d.fieldNames.Nodup
  values : ∀ d ∈ ds, d.values.Nodup
  closed : ∀ d ∈ ds, ∀ n ∈ d.references,
    n ∈ Schema.builtinScalars ∨ n ∈ ds.map Declaration.name

/-! ## The names that compiling gives -/

/-- The operations whose arguments are an input. -/
def mutations : List Operation := Operation.all.filter fun op => op.rootType == "Mutation"

/-- The names of the types that go with a model type. -/
def generatedNames (type : String) : List String :=
  connectionName type :: mutations.map fun op => inputName op type

lemma names_typeDeclarations (enums : List String) (o : ObjectType) :
    (typeDeclarations enums o).map Declaration.name = generatedNames o.name := rfl

lemma mem_generatedNames {n type : String} :
    n ∈ generatedNames type ↔
      n = connectionName type ∨ ∃ op ∈ mutations, n = inputName op type := by
  simp [generatedNames, eq_comm]

lemma inputName_injective {op op' : Operation} {type type' : String}
    (h : inputName op type = inputName op' type') : op = op' ∧ type = type' := by
  refine Operation.resolverId_injective ?_
  rw [Operation.resolverId, (String.append_left_inj _).mp h, Operation.resolverId]

lemma connectionName_ne_inputName (type type' : String) (op : Operation) :
    connectionName type ≠ inputName op type' :=
  append_ne_append (by decide) (by decide) _ _

/-- The model type can be read off a name that goes with it. -/
lemma eq_of_mem_generatedNames {n type type' : String} (h : n ∈ generatedNames type)
    (h' : n ∈ generatedNames type') : type = type' := by
  rcases mem_generatedNames.mp h with rfl | ⟨op, _, rfl⟩
  · rcases mem_generatedNames.mp h' with heq | ⟨op', _, heq⟩
    · exact (String.append_right_inj _).mp ((String.append_left_inj _).mp heq)
    · exact absurd heq (connectionName_ne_inputName _ _ _)
  · rcases mem_generatedNames.mp h' with heq | ⟨op', _, heq⟩
    · exact absurd heq.symm (connectionName_ne_inputName _ _ _)
    · exact (inputName_injective heq).2

lemma nodup_generatedNames (type : String) : (generatedNames type).Nodup := by
  rw [generatedNames, List.nodup_cons]
  refine ⟨fun hmem => ?_, List.Nodup.map (fun op op' h => (inputName_injective h).1) (by decide)⟩
  obtain ⟨op, _, heq⟩ := List.mem_map.mp hmem
  exact connectionName_ne_inputName _ _ _ heq.symm

/-- The root types have names of their own. -/
lemma notMem_generatedNames_of_reserved {n type : String} (h : n ∈ Schema.reservedTypes) :
    n ∉ generatedNames type := by
  have hends : ∀ n ∈ Schema.reservedTypes, ¬ "Connection".toList <:+ n.toList ∧
      ¬ "Input".toList <:+ n.toList := by decide
  intro hmem
  rcases mem_generatedNames.mp hmem with heq | ⟨op, _, heq⟩
  · exact append_ne_of_ending (hends n h).1 _ heq.symm
  · exact append_ne_of_ending (hends n h).2 _ heq.symm

lemma mem_names_generated {s : Schema} {n : String} :
    n ∈ (generated s).map Declaration.name ↔ s.modelTypes ≠ [] ∧
      ((∃ o ∈ s.modelTypes, n ∈ generatedNames o.name) ∨ n = "Query" ∨ n = "Mutation") := by
  rw [generated]
  split
  · rename_i h
    simp [List.isEmpty_iff.mp h]
  · rename_i h
    have hne : s.modelTypes ≠ [] := mt List.isEmpty_iff.mpr h
    simp only [List.map_append, List.map_flatMap, names_typeDeclarations, List.mem_append,
      List.mem_flatMap, ne_eq, hne, not_false_eq_true, true_and]
    exact or_congr_right List.mem_pair

lemma nodup_names_generated {s : Schema} (distinct : (s.objects.map ObjectType.name).Nodup) :
    ((generated s).map Declaration.name).Nodup := by
  rw [generated]
  split
  · exact List.nodup_nil
  · have htypes : ((s.modelTypes.flatMap (typeDeclarations (s.enums.map EnumType.name))).map
        Declaration.name).Nodup := by
      rw [List.map_flatMap, List.nodup_flatMap]
      refine ⟨fun o _ => nodup_generatedNames o.name, ?_⟩
      refine (List.pairwise_map.mp (Schema.nodup_modelTypes distinct)).imp ?_
      intro o o' hne n hn hn'
      exact hne (eq_of_mem_generatedNames hn hn')
    rw [List.map_append, List.nodup_append]
    refine ⟨htypes, (by decide : ["Query", "Mutation"].Nodup), ?_⟩
    intro n hn root hroot heq
    obtain ⟨d, hd, rfl⟩ := List.mem_map.mp hn
    obtain ⟨o, _, hd⟩ := List.mem_flatMap.mp hd
    have hreserved : root ∈ Schema.reservedTypes := by
      rcases List.mem_pair.mp hroot with rfl | rfl <;> simp [Schema.reservedTypes,
        Declaration.name]
    exact notMem_generatedNames_of_reserved (heq ▸ hreserved)
      (names_typeDeclarations _ o ▸ List.mem_map_of_mem hd)

lemma names_ofDefinition (s : Schema) :
    (s.definitions.map ofDefinition).map Declaration.name = s.names := by
  rw [List.map_map]
  refine List.map_congr_left fun d _ => ?_
  cases d <;> rfl

lemma names_compiled (s : Schema) :
    (compiled s).map Declaration.name = s.names ++ (generated s).map Declaration.name := by
  rw [compiled, List.map_append, names_ofDefinition]

/-- The types have names of their own if and only if none of the source has a name that goes with
a model type. -/
lemma nodup_names_compiled_iff {s : Schema} (valid : s.Valid) :
    ((compiled s).map Declaration.name).Nodup ↔
      ∀ o ∈ s.modelTypes, ∀ n ∈ generatedNames o.name, n ∉ s.names := by
  have distinct := Schema.nodup_objects (Schema.check_eq_ok_iff.mpr valid)
  rw [names_compiled, List.nodup_append]
  constructor
  · rintro ⟨_, _, apart⟩ o ho n hn hmem
    have hgenerated : n ∈ (generated s).map Declaration.name :=
      mem_names_generated.mpr ⟨List.ne_nil_of_mem ho, Or.inl ⟨o, ho, hn⟩⟩
    exact apart n hmem n hgenerated rfl
  · intro free
    refine ⟨valid.distinct, nodup_names_generated distinct, ?_⟩
    rintro n hn _ hgenerated rfl
    rcases (mem_names_generated.mp hgenerated).2 with ⟨o, ho, hmem⟩ | rfl | rfl
    · exact free o ho n hmem hn
    · exact (valid.free _ hn).1 (by decide)
    · exact (valid.free _ hn).1 (by decide)

/-! ## Fields -/

lemma field_injective {op : Operation} {type type' : String}
    (h : op.field type = op.field type') : type = type' := by
  cases op with
  | list => exact (String.append_right_inj _).mp ((String.append_left_inj _).mp h)
  | get | create | update | delete => exact (String.append_right_inj _).mp h

/-- The operation and the type can be read off a root field. -/
lemma field_eq_field {op op' : Operation} {type type' : String}
    (h : op.field type = op'.field type') : op = op' ∧ type = type' := by
  have hop : op = op' := by
    have hlist := congrArg String.toList h
    cases op <;> cases op' <;> first | rfl | simp [Operation.field] at hlist
  subst hop
  exact ⟨rfl, field_injective h⟩

/-- The fields of a root type that serve a model type. -/
def rootNames (root type : String) : List String :=
  (Operation.all.filter fun op => op.rootType == root).map fun op => op.field type

lemma mem_rootNames {root type n : String} :
    n ∈ rootNames root type ↔ ∃ op : Operation, op.rootType = root ∧ n = op.field type := by
  have hall : ∀ op : Operation, op ∈ Operation.all := fun op => by cases op <;> decide
  simp only [rootNames, List.mem_map, List.mem_filter, hall, true_and, beq_iff_eq]
  exact exists_congr fun op => and_congr_right fun _ => eq_comm

lemma names_rootMembers (root : String) (os : List ObjectType) :
    (rootMembers root os).map Member.name = os.flatMap fun o => rootNames root o.name := by
  rw [rootMembers, List.map_flatMap]
  refine List.flatMap_congr fun o _ => ?_
  rw [List.map_map]
  rfl

lemma nodup_rootMembers (root : String) {os : List ObjectType}
    (distinct : (os.map ObjectType.name).Nodup) :
    ((rootMembers root os).map Member.name).Nodup := by
  rw [names_rootMembers, List.nodup_flatMap]
  constructor
  · intro o _
    exact List.Nodup.map (fun op op' h => (field_eq_field h).1)
      (List.Nodup.filter _ (by decide : Operation.all.Nodup))
  · refine (List.pairwise_map.mp distinct).imp ?_
    intro o o' hne n hn hn'
    obtain ⟨op, _, rfl⟩ := mem_rootNames.mp hn
    obtain ⟨op', _, heq⟩ := mem_rootNames.mp hn'
    exact hne (field_eq_field heq).2

/-- An input has the ID and other fields of its type. -/
lemma nodup_inputFields {enums : List String} {o : ObjectType}
    (distinct : (o.fields.map Field.name).Nodup) :
    ("id" :: (inputFields enums o).map Field.name).Nodup := by
  rw [List.nodup_cons]
  refine ⟨fun hmem => ?_, (List.filter_sublist.map Field.name).nodup distinct⟩
  obtain ⟨f, hf, hname⟩ := List.mem_map.mp hmem
  have hinput : Model.isInputField enums f = true := (List.mem_filter.mp hf).2
  rw [Model.isInputField, hname] at hinput
  simp at hinput

lemma nodup_fieldNames_typeDeclarations (enums : List String) {o : ObjectType}
    (distinct : (o.fields.map Field.name).Nodup) :
    ∀ d ∈ typeDeclarations enums o, d.fieldNames.Nodup := by
  have hinputs : ("id" :: (inputFields enums o).map Field.name).Nodup := nodup_inputFields distinct
  have hnames : ∀ g : Field → TypeRef,
      ((inputFields enums o).map fun f => (⟨f.name, g f⟩ : Slot)).map Slot.name =
        (inputFields enums o).map Field.name := fun g => by
    rw [List.map_map]
    rfl
  simp only [typeDeclarations, List.forall_mem_cons, Declaration.fieldNames, List.map_cons, hnames]
  exact ⟨by decide, hinputs, hinputs, by decide, fun d hd => absurd hd List.not_mem_nil⟩

lemma mem_objects {s : Schema} {o : ObjectType} (h : Definition.object o ∈ s.definitions) :
    o ∈ s.objects :=
  List.mem_filterMap.mpr ⟨_, h, rfl⟩

lemma mem_generated {s : Schema} {d : Declaration} (h : d ∈ generated s) :
    (∃ o ∈ s.modelTypes, d ∈ typeDeclarations (s.enums.map EnumType.name) o) ∨
      ∃ root ∈ ["Query", "Mutation"], d = .type root (rootMembers root s.modelTypes) := by
  rw [generated] at h
  split at h
  · cases h
  · rcases List.mem_append.mp h with h | h
    · exact Or.inl (List.mem_flatMap.mp h)
    · rcases List.mem_pair.mp h with rfl | rfl
      · exact Or.inr ⟨_, by simp, rfl⟩
      · exact Or.inr ⟨_, by simp, rfl⟩

lemma nodup_fieldNames_compiled {s : Schema} (valid : s.Valid) :
    ∀ d ∈ compiled s, d.fieldNames.Nodup := by
  have distinct := Schema.nodup_objects (Schema.check_eq_ok_iff.mpr valid)
  refine List.forall_mem_append.mpr ⟨fun d hd => ?_, fun d hd => ?_⟩
  · obtain ⟨d, hdef, rfl⟩ := List.mem_map.mp hd
    cases d with
    | object o =>
      rw [ofDefinition, Declaration.fieldNames, List.map_map]
      exact valid.distinctFields o (mem_objects hdef)
    | enum e => exact List.nodup_nil
  · rcases mem_generated hd with ⟨o, ho, hd⟩ | ⟨root, _, rfl⟩
    · exact nodup_fieldNames_typeDeclarations _
        (valid.distinctFields o (Schema.mem_modelTypes.mp ho).1) d hd
    · exact nodup_rootMembers root (Schema.nodup_modelTypes distinct)

/-! ## Values -/

lemma nodup_values_compiled_iff (s : Schema) :
    (∀ d ∈ compiled s, d.values.Nodup) ↔ ∀ e ∈ s.enums, e.values.Nodup := by
  constructor
  · intro h e he
    obtain ⟨d, hd, heq⟩ := List.mem_filterMap.mp he
    cases d with
    | object o => cases heq
    | enum e' =>
      obtain rfl := Option.some.inj heq
      exact h _ (List.mem_append_left _ (List.mem_map_of_mem hd))
  · intro h
    refine List.forall_mem_append.mpr ⟨fun d hd => ?_, fun d hd => ?_⟩
    · obtain ⟨d, hdef, rfl⟩ := List.mem_map.mp hd
      cases d with
      | object o => exact List.nodup_nil
      | enum e => exact h e (List.mem_filterMap.mpr ⟨_, hdef, rfl⟩)
    · rcases mem_generated hd with ⟨o, _, hd⟩ | ⟨root, _, rfl⟩
      · simp only [typeDeclarations, List.mem_cons, List.not_mem_nil, or_false] at hd
        rcases hd with rfl | rfl | rfl | rfl <;> exact List.nodup_nil
      · exact List.nodup_nil

/-! ## References -/

lemma base_nullable (t : TypeRef) : t.nullable.base = t.base := by cases t <;> rfl

/-- What the types that go with a model type refer to. -/
lemma references_typeDeclarations {enums : List String} {o : ObjectType} {d : Declaration}
    (hd : d ∈ typeDeclarations enums o) {n : String} (hn : n ∈ d.references) :
    n = o.name ∨ n ∈ Schema.builtinScalars ∨ n ∈ enums := by
  have hID : "ID" ∈ Schema.builtinScalars := by decide
  have hinput : ∀ f ∈ inputFields enums o,
      f.type.base ∈ Schema.builtinScalars ∨ f.type.base ∈ enums := by
    intro f hf
    have hinput : Model.isInputField enums f = true := (List.mem_filter.mp hf).2
    simp only [Model.isInputField, Bool.and_eq_true, Bool.or_eq_true, Schema.isBuiltinScalar_iff,
      List.contains_iff_mem] at hinput
    exact hinput.2
  simp only [typeDeclarations, List.mem_cons, List.not_mem_nil, or_false] at hd
  rcases hd with rfl | rfl | rfl | rfl
  · rcases List.mem_pair.mp hn with rfl | rfl
    · exact Or.inl rfl
    · exact Or.inr (Or.inl (by decide : "String" ∈ Schema.builtinScalars))
  · rcases List.mem_cons.mp hn with rfl | hn
    · exact Or.inr (Or.inl hID)
    · simp only [List.map_map, List.mem_map] at hn
      obtain ⟨f, hf, rfl⟩ := hn
      exact Or.inr (hinput f hf)
  · rcases List.mem_cons.mp hn with rfl | hn
    · exact Or.inr (Or.inl hID)
    · simp only [List.map_map, List.mem_map] at hn
      obtain ⟨f, hf, rfl⟩ := hn
      rw [Function.comp_apply, base_nullable]
      exact Or.inr (hinput f hf)
  · rcases List.mem_singleton.mp hn with rfl
    exact Or.inr (Or.inl hID)

lemma references_rootMember {op : Operation} {type n : String}
    (hn : n ∈ (rootMember op type).type.base ::
      (rootMember op type).arguments.map fun a => a.type.base) :
    n = type ∨ n ∈ Schema.builtinScalars ∨ n ∈ generatedNames type := by
  have hbuiltin : ∀ n ∈ ["ID", "Int", "String"], n ∈ Schema.builtinScalars := by decide
  have hinput : op ∈ mutations → inputName op type ∈ generatedNames type :=
    fun hop => mem_generatedNames.mpr (Or.inr ⟨op, hop, rfl⟩)
  rcases List.mem_cons.mp hn with rfl | hn
  · cases op with
    | list => exact Or.inr (Or.inr (mem_generatedNames.mpr (Or.inl rfl)))
    | get | create | update | delete => exact Or.inl rfl
  · cases op with
    | get =>
      obtain rfl := List.mem_singleton.mp hn
      exact Or.inr (Or.inl (by decide : "ID" ∈ Schema.builtinScalars))
    | list =>
      rcases List.mem_pair.mp hn with rfl | rfl
      · exact Or.inr (Or.inl (by decide : "Int" ∈ Schema.builtinScalars))
      · exact Or.inr (Or.inl (by decide : "String" ∈ Schema.builtinScalars))
    | create | update | delete =>
      obtain rfl := List.mem_singleton.mp hn
      exact Or.inr (Or.inr (hinput (by decide)))

lemma closed_compiled {s : Schema} (valid : s.Valid) : ∀ d ∈ compiled s, ∀ n ∈ d.references,
    n ∈ Schema.builtinScalars ∨ n ∈ (compiled s).map Declaration.name := by
  have declared : ∀ n ∈ s.names, n ∈ (compiled s).map Declaration.name := by
    intro n hn
    rw [names_compiled]
    exact List.mem_append_left _ hn
  have generates : ∀ o ∈ s.modelTypes, ∀ n ∈ generatedNames o.name,
      n ∈ (compiled s).map Declaration.name := by
    intro o ho n hn
    rw [names_compiled]
    exact List.mem_append_right _
      (mem_names_generated.mpr ⟨List.ne_nil_of_mem ho, Or.inl ⟨o, ho, hn⟩⟩)
  have modelDeclared : ∀ o ∈ s.modelTypes, o.name ∈ (compiled s).map Declaration.name := by
    intro o ho
    obtain ⟨d, hd, heq⟩ := List.mem_filterMap.mp (Schema.mem_modelTypes.mp ho).1
    cases d with
    | enum e => cases heq
    | object o' => exact Option.some.inj heq ▸ declared _ (List.mem_map_of_mem hd)
  have enumDeclared : ∀ n ∈ s.enums.map EnumType.name,
      n ∈ (compiled s).map Declaration.name := by
    intro n hn
    obtain ⟨e, he, rfl⟩ := List.mem_map.mp hn
    obtain ⟨d, hd, heq⟩ := List.mem_filterMap.mp he
    cases d with
    | object o => cases heq
    | enum e' => exact Option.some.inj heq ▸ declared _ (List.mem_map_of_mem hd)
  refine List.forall_mem_append.mpr ⟨fun d hd n hn => ?_, fun d hd n hn => ?_⟩
  · obtain ⟨d, hdef, rfl⟩ := List.mem_map.mp hd
    cases d with
    | enum e => cases hn
    | object o =>
      obtain ⟨m, hm, hn⟩ := List.mem_flatMap.mp hn
      obtain ⟨f, hf, rfl⟩ := List.mem_map.mp hm
      obtain rfl := List.mem_singleton.mp hn
      exact (valid.closed o (mem_objects hdef) f hf).imp_right (declared _)
  · rcases mem_generated hd with ⟨o, ho, hd⟩ | ⟨root, _, rfl⟩
    · rcases references_typeDeclarations hd hn with rfl | hn | hn
      · exact Or.inr (modelDeclared o ho)
      · exact Or.inl hn
      · exact Or.inr (enumDeclared n hn)
    · obtain ⟨m, hm, hn⟩ := List.mem_flatMap.mp hn
      obtain ⟨o, ho, hm⟩ := List.mem_flatMap.mp hm
      obtain ⟨op, _, rfl⟩ := List.mem_map.mp hm
      rcases references_rootMember hn with rfl | hn | hn
      · exact Or.inr (modelDeclared o ho)
      · exact Or.inl hn
      · exact Or.inr (generates o ho n hn)

/-- What compiling a valid schema declares is well formed but for two things that the check of the
schema does not look at. -/
lemma wellFormed_compiled_iff {s : Schema} (valid : s.Valid) :
    WellFormed (compiled s) ↔
      (∀ o ∈ s.modelTypes, ∀ n ∈ generatedNames o.name, n ∉ s.names) ∧
        ∀ e ∈ s.enums, e.values.Nodup := by
  rw [← nodup_names_compiled_iff valid, ← nodup_values_compiled_iff]
  exact ⟨fun h => ⟨h.types, h.values⟩, fun h =>
    ⟨h.1, nodup_fieldNames_compiled valid, h.2, closed_compiled valid⟩⟩

end Sdl

namespace Pipeline

open Sdl

/-- A compiled text is well formed if and only if the source declares no type that compiling
generates and no enum with a value twice. Fields and references are in order in any case. -/
theorem wellFormed_iff_of_compile {c : BuildConfig} {p : Pipeline} (hp : standard c = .ok p)
    {text : String} {d : Document} (compiled : p.compile text = .ok d) :
    ∃ s sdl ds, Schema.parse text = .ok s ∧
      d.property? Api.schemaId "Definition" = some (.string sdl) ∧ Sdl.read sdl = .ok ds ∧
      (WellFormed ds ↔
        (∀ o ∈ s.modelTypes, ∀ n ∈ generatedNames o.name, n ∉ s.names) ∧
          ∀ e ∈ s.enums, e.values.Nodup) ∧
      (∀ e ∈ ds, e.fieldNames.Nodup) ∧
      ∀ e ∈ ds, ∀ n ∈ e.references, n ∈ Schema.builtinScalars ∨ n ∈ ds.map Declaration.name := by
  obtain ⟨s, hparse, _, hdefinition, hread⟩ := exists_compiled hp compiled
  have valid := (Schema.legible_of_parse hparse).2
  exact ⟨s, _, _, hparse, hdefinition, hread, wellFormed_compiled_iff valid,
    nodup_fieldNames_compiled valid, closed_compiled valid⟩

def plainConfig : BuildConfig := { apiName := "blog" }

def plainPipeline : Pipeline := ⟨standardStages plainConfig, rfl⟩

def draftText : String :=
  "enum State \x7b draft public \x7d type Post @model \x7b id: ID! state: State! \x7d"

theorem wellFormed_iff_of_compile_draft :
    ∃ d sdl ds, plainPipeline.compile draftText = .ok d ∧
      d.property? Api.schemaId "Definition" = some (.string sdl) ∧ Sdl.read sdl = .ok ds ∧
      WellFormed ds := by
  have hfine : (Schema.parse draftText).toOption.any fun s =>
      s.modelTypes.all (fun o => (generatedNames o.name).all fun n => n ∉ s.names) &&
        s.enums.all fun e => e.values.Nodup := by decide +kernel
  have hcompiles : (plainPipeline.compile draftText).toOption.any fun _ => true := by
    decide +kernel
  obtain ⟨d, hcompile, _⟩ := exists_of_any hcompiles
  have hp : standard plainConfig = .ok plainPipeline := rfl
  obtain ⟨s, sdl, ds, hparse, hdefinition, hread, hiff, _⟩ := wellFormed_iff_of_compile hp hcompile
  rw [hparse] at hfine
  refine ⟨d, sdl, ds, hcompile, hdefinition, hread, hiff.mpr ?_⟩
  simpa [Except.toOption] using hfine

/-- Posts, and a type that is named like the list of posts. -/
def redeclaredText : String :=
  "type Post @model \x7b id: ID! \x7d type ModelPostConnection \x7b id: ID \x7d"

def repeatedText : String :=
  "enum State \x7b draft draft \x7d type Post \x7b state: State \x7d"

/-- A name that compiling generates can be taken, and an enum can have a value twice. -/
theorem compiles_ill_formed :
    (∃ d sdl ds, plainPipeline.compile redeclaredText = .ok d ∧
      d.property? Api.schemaId "Definition" = some (.string sdl) ∧ Sdl.read sdl = .ok ds ∧
      ¬ (ds.map Declaration.name).Nodup) ∧
    ∃ d sdl ds, plainPipeline.compile repeatedText = .ok d ∧
      d.property? Api.schemaId "Definition" = some (.string sdl) ∧ Sdl.read sdl = .ok ds ∧
      ∃ e ∈ ds, ¬ e.values.Nodup := by
  have hp : standard plainConfig = .ok plainPipeline := rfl
  constructor
  · have htaken : (Schema.parse redeclaredText).toOption.any fun s =>
        s.modelTypes.any fun o => (generatedNames o.name).any fun n => n ∈ s.names := by
      decide +kernel
    have hcompiles : (plainPipeline.compile redeclaredText).toOption.any fun _ => true := by
      decide +kernel
    obtain ⟨d, hcompile, _⟩ := exists_of_any hcompiles
    obtain ⟨s, hparse, _, hdefinition, hread⟩ := exists_compiled hp hcompile
    have valid := (Schema.legible_of_parse hparse).2
    rw [hparse] at htaken
    simp only [Except.toOption, Option.any_some, List.any_eq_true, decide_eq_true_eq] at htaken
    obtain ⟨o, ho, n, hn, hmem⟩ := htaken
    exact ⟨d, _, _, hcompile, hdefinition, hread, fun hnodup =>
      (nodup_names_compiled_iff valid).mp hnodup o ho n hn hmem⟩
  · have htwice : (Schema.parse repeatedText).toOption.any fun s =>
        s.enums.any fun e => ¬ e.values.Nodup := by decide +kernel
    have hcompiles : (plainPipeline.compile repeatedText).toOption.any fun _ => true := by
      decide +kernel
    obtain ⟨d, hcompile, _⟩ := exists_of_any hcompiles
    obtain ⟨s, hparse, _, hdefinition, hread⟩ := exists_compiled hp hcompile
    rw [hparse] at htwice
    simp only [Except.toOption, Option.any_some, List.any_eq_true, decide_eq_true_eq] at htwice
    obtain ⟨e, he, htwice⟩ := htwice
    refine ⟨d, _, _, hcompile, hdefinition, hread, ?_⟩
    by_contra hnone
    push Not at hnone
    exact htwice ((nodup_values_compiled_iff s).mp hnone e he)

end Pipeline

end SchemaStack
