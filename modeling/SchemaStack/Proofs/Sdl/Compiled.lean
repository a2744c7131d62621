import SchemaStack.Proofs.Directive.References
import SchemaStack.Proofs.Sdl.Declarations
/-!
# The text of a compiled schema

The declarations of a compiled schema are those of its source and, where there are model types,
what goes with each of them and the two root types. The text in the document is printed for these
declarations, and since all of them can be spelled out, it declares exactly them.
-/

namespace SchemaStack

open Lexer (IsName continuesName)

namespace Sdl

/-! ## The declarations -/

def ofDefinition : Definition → Declaration
  | .object o => .type o.name (o.fields.map fun f => ⟨f.name, [], f.type⟩)
  | .enum e => .enum e.name e.values

def connectionName (type : String) : String := "Model" ++ type ++ "Connection"

def inputName (op : Operation) (type : String) : String := op.label ++ type ++ "Input"

/-- The fields that go into the inputs of a model type besides its ID. -/
def inputFields (enums : List String) (o : ObjectType) : List Field :=
  o.fields.filter (Model.isInputField enums)

/-- What goes with a model type. -/
def typeDeclarations (enums : List String) (o : ObjectType) : List Declaration :=
  [.type (connectionName o.name)
     [⟨"items", [], .list (.named o.name)⟩, ⟨"nextToken", [], .named "String"⟩],
   .input (inputName .create o.name)
     (⟨"id", .named "ID"⟩ :: (inputFields enums o).map fun f => ⟨f.name, f.type⟩),
   .input (inputName .update o.name)
     (⟨"id", .nonNull (.named "ID")⟩ ::
       (inputFields enums o).map fun f => ⟨f.name, f.type.nullable⟩),
   .input (inputName .delete o.name) [⟨"id", .named "ID"⟩]]

def rootMember (op : Operation) (type : String) : Member where
  name := op.field type
  arguments :=
    match op with
    | .get => [⟨"id", .nonNull (.named "ID")⟩]
    | .list => [⟨"limit", .named "Int"⟩, ⟨"nextToken", .named "String"⟩]
    | _ => [⟨"input", .nonNull (.named (inputName op type))⟩]
  type := .named (if op = .list then connectionName type else type)

def rootMembers (root : String) (os : List ObjectType) : List Member :=
  os.flatMap fun o =>
    (Operation.all.filter fun op => op.rootType == root).map fun op => rootMember op o.name

def roots (os : List ObjectType) : List Declaration :=
  [.type "Query" (rootMembers "Query" os), .type "Mutation" (rootMembers "Mutation" os)]

/-- What compiling adds to the declarations of a schema. -/
def generated (s : Schema) : List Declaration :=
  if s.modelTypes.isEmpty then []
  else
    s.modelTypes.flatMap (typeDeclarations (s.enums.map EnumType.name)) ++ roots s.modelTypes

def compiled (s : Schema) : List Declaration := s.definitions.map ofDefinition ++ generated s

/-- The text of a compiled schema. -/
def text (s : Schema) : String := blocks ((compiled s).map Declaration.text)

/-! ## The text in the document -/

/-- The declaration of a definition is printed as the definition is. -/
lemma text_ofDefinition (d : Definition) : (ofDefinition d).text = d.text := by
  cases d with
  | object o =>
    rw [ofDefinition, Declaration.text, List.map_map]
    refine congrArg (block "type" o.name) (List.map_congr_left fun f _ => ?_)
    exact congrArg (· ++ ": " ++ f.type.text) String.append_empty
  | enum e => rfl

lemma map_text_ofDefinition (s : Schema) :
    (s.definitions.map ofDefinition).map Declaration.text = s.definitions.map Definition.text := by
  rw [List.map_map]
  exact List.map_congr_left fun d _ => text_ofDefinition d

/-- The declarations that go with a model type, printed one by one, are what the stage writes for
it. -/
lemma text_typeDeclarations (enums : List String) (o : ObjectType) :
    (typeDeclarations enums o).map Declaration.text = Model.typeBlocks enums o := by
  have hid : (⟨"id", .named "ID"⟩ : Slot).text = "id: ID" := by decide
  have hid' : (⟨"id", .nonNull (.named "ID")⟩ : Slot).text = "id: ID!" := by decide
  have hnext : (⟨"nextToken", [], .named "String"⟩ : Member).text = "nextToken: String" := by decide
  have hmember : (⟨"items", [], .list (.named o.name)⟩ : Member).text =
      "items: [" ++ o.name ++ "]" := by
    rw [← String.toList_inj]
    simp [Member.text, argumentsText, TypeRef.text]
  simp only [typeDeclarations, Model.typeBlocks, List.map_cons, List.map_nil, Declaration.text,
    hid, hid', hnext, hmember, List.map_map, connectionName, inputName, Operation.label,
    inputFields]
  rfl

lemma text_rootMember (op : Operation) (type : String) :
    (rootMember op type).text = Model.rootField op type := by
  have hid : (⟨"id", .nonNull (.named "ID")⟩ : Slot).text = "id: ID!" := by decide
  have hslots : ", ".intercalate (([⟨"limit", .named "Int"⟩, ⟨"nextToken", .named "String"⟩] :
      List Slot).map Slot.text) = "limit: Int, nextToken: String" := by decide
  rw [← String.toList_inj]
  cases op with
  | get => simp [Member.text, rootMember, argumentsText, Model.rootField, hid, TypeRef.text]
  | list =>
    simp [Member.text, rootMember, argumentsText, Model.rootField, hslots, TypeRef.text,
      connectionName, -List.map_cons]
  | create | update | delete =>
    simp [Member.text, rootMember, argumentsText, Model.rootField, Slot.text, TypeRef.text,
      inputName]

lemma text_rootMembers (root : String) (os : List ObjectType) :
    (rootMembers root os).map Member.text = Model.rootFields root os := by
  rw [rootMembers, Model.rootFields, List.map_flatMap]
  refine List.flatMap_congr fun o _ => ?_
  rw [List.map_map]
  exact List.map_congr_left fun op _ => text_rootMember op o.name

lemma blocks_pair (a b : String) : blocks [a, b] = a ++ "\n\n" ++ b := by
  rw [blocks, String.intercalate_cons_of_ne_nil (by simp), String.intercalate_singleton]

/-- Blocks that are put together have the same gap between them as inside. -/
lemma blocks_append {xs ys : List String} (hx : xs ≠ []) (hy : ys ≠ []) :
    blocks [blocks xs, blocks ys] = blocks (xs ++ ys) := by
  rw [blocks_pair]
  exact (String.intercalate_append_of_ne_nil hx hy).symm

/-- What compiling adds is printed as the stage writes it. -/
lemma text_generated {s : Schema} (h : s.modelTypes ≠ []) :
    blocks ((generated s).map Declaration.text) =
      Model.schemaText (s.enums.map EnumType.name) s.modelTypes := by
  have htypes : (s.modelTypes.flatMap (typeDeclarations (s.enums.map EnumType.name))).map
      Declaration.text = s.modelTypes.flatMap (Model.typeBlocks (s.enums.map EnumType.name)) := by
    rw [List.map_flatMap]
    exact List.flatMap_congr fun o _ => text_typeDeclarations _ o
  rw [generated, if_neg (mt List.isEmpty_iff.mp h), List.map_append, htypes, Model.schemaText,
    roots, List.map_cons, List.map_singleton, Declaration.text, Declaration.text,
    text_rootMembers, text_rootMembers]

/-- The text is that of the source with what goes with the model types behind it, if there are any.
-/
lemma text_of_modelTypes {s : Schema} (h : s.modelTypes ≠ []) :
    text s = blocks [s.text, Model.schemaText (s.enums.map EnumType.name) s.modelTypes] := by
  have hgenerated : (generated s).map Declaration.text ≠ [] := by
    rw [generated, if_neg (mt List.isEmpty_iff.mp h)]
    simp [roots]
  have hdefinitions : s.definitions.map Definition.text ≠ [] := by
    rintro heq
    have hnone : s.definitions = [] := List.map_eq_nil_iff.mp heq
    exact h (by rw [Schema.modelTypes, Schema.objects, hnone]; rfl)
  rw [text, compiled, List.map_append, map_text_ofDefinition,
    ← blocks_append hdefinitions hgenerated, text_generated h, Schema.text]

lemma text_of_no_modelTypes {s : Schema} (h : s.modelTypes = []) : text s = s.text := by
  rw [text, compiled, generated, h, List.isEmpty_nil, if_pos rfl, List.append_nil,
    map_text_ofDefinition, Schema.text]

/-! ## Its names are spelled as names -/

/-- Whether a text is spelled as a name. -/
def isName (n : String) : Bool :=
  match n.toList with
  | [] => false
  | c :: cs => Lexer.startsName c && cs.all continuesName

lemma isName_iff {n : String} : isName n = true ↔ IsName n := by
  rw [isName, IsName]
  cases n.toList with
  | nil => simp
  | cons c cs => simp

lemma continues_of_isName {n : String} (h : IsName n) : ∀ c ∈ n.toList, continuesName c = true := by
  obtain ⟨c, cs, hn, hstarts, hcs⟩ := h
  have hc : continuesName c = true := by
    rw [Lexer.startsName] at hstarts
    rw [continuesName, hstarts, Bool.true_or]
  rw [hn]
  exact List.forall_mem_cons.mpr ⟨hc, hcs⟩

/-- Behind a name anything may stand that continues one. -/
lemma isName_append {a b : String} (ha : IsName a) (hb : ∀ c ∈ b.toList, continuesName c = true) :
    IsName (a ++ b) := by
  obtain ⟨c, cs, hn, hstarts, hcs⟩ := ha
  refine ⟨c, cs ++ b.toList, by rw [String.toList_append, hn, List.cons_append], hstarts, ?_⟩
  exact List.forall_mem_append.mpr ⟨hcs, hb⟩

lemma isName_append_isName {a b : String} (ha : IsName a) (hb : IsName b) : IsName (a ++ b) :=
  isName_append ha (continues_of_isName hb)

variable {type : String}

lemma isName_connectionName (h : IsName type) : IsName (connectionName type) :=
  isName_append_isName (isName_append_isName (isName_iff.mp (by decide)) h)
    (isName_iff.mp (by decide))

lemma isName_inputName (op : Operation) (h : IsName type) : IsName (inputName op type) := by
  have hlabel : IsName op.label := isName_iff.mp (by cases op <;> decide)
  exact isName_append_isName (isName_append_isName hlabel h) (isName_iff.mp (by decide))

lemma isName_field (op : Operation) (h : IsName type) : IsName (op.field type) := by
  cases op with
  | list =>
    exact isName_append (isName_append_isName (isName_iff.mp (by decide)) h)
      (List.all_eq_true.mp (by decide))
  | get | create | update | delete =>
    exact isName_append_isName (isName_iff.mp (by decide)) h

/-! ## It can be spelled out -/

lemma legible_nullable {t : TypeRef} (h : t.Legible) : t.nullable.Legible := by
  cases t with
  | named n => exact h
  | list t => exact h
  | nonNull t => exact h.2

lemma lists_nullable (t : TypeRef) : t.nullable.lists = t.lists := by cases t <;> rfl

/-- What can be spelled out as a definition can be spelled out as a declaration. -/
lemma legible_ofDefinition {d : Definition} (h : d.Legible) : (ofDefinition d).Legible := by
  cases d with
  | enum e => exact h
  | object o =>
    refine ⟨h.1, fun m hm => ?_⟩
    obtain ⟨f, hf, rfl⟩ := List.mem_map.mp hm
    have field := h.2 f hf
    exact ⟨field.name, fun a ha => absurd ha List.not_mem_nil, field.type, field.bounded⟩

/-- What goes with a model type has its names from the type and its fields, and no type in it has
more lists than theirs. -/
lemma legible_typeDeclarations (enums : List String) {o : ObjectType} (name : IsName o.name)
    (fields : ∀ f ∈ o.fields, f.Legible) : ∀ d ∈ typeDeclarations enums o, d.Legible := by
  have hid : IsName "id" := isName_iff.mp (by decide)
  have hID : IsName "ID" := isName_iff.mp (by decide)
  have hitems : IsName "items" := isName_iff.mp (by decide)
  have hinputs : ∀ f ∈ inputFields enums o, f.Legible :=
    fun f hf => fields f (List.mem_of_mem_filter hf)
  simp only [typeDeclarations, List.forall_mem_cons]
  refine ⟨⟨isName_connectionName name, ?_⟩, ⟨isName_inputName .create name, ?_⟩,
    ⟨isName_inputName .update name, ?_⟩, ⟨isName_inputName .delete name, ?_⟩,
    fun d hd => absurd hd List.not_mem_nil⟩
  · intro m hm
    rcases List.mem_pair.mp hm with rfl | rfl
    · exact ⟨hitems, fun a ha => absurd ha List.not_mem_nil, name, Nat.le_of_ble_eq_true rfl⟩
    · exact ⟨isName_iff.mp (by decide), fun a ha => absurd ha List.not_mem_nil,
        isName_iff.mp (by decide), by decide⟩
  · rw [List.forall_mem_cons]
    refine ⟨⟨hid, hID, by decide⟩, fun m hm => ?_⟩
    obtain ⟨f, hf, rfl⟩ := List.mem_map.mp hm
    exact ⟨(hinputs f hf).name, (hinputs f hf).type, (hinputs f hf).bounded⟩
  · rw [List.forall_mem_cons]
    refine ⟨⟨hid, ⟨rfl, hID⟩, by decide⟩, fun m hm => ?_⟩
    obtain ⟨f, hf, rfl⟩ := List.mem_map.mp hm
    exact ⟨(hinputs f hf).name, legible_nullable (hinputs f hf).type,
      (lists_nullable f.type).symm ▸ (hinputs f hf).bounded⟩
  · rw [List.forall_mem_singleton]
    exact ⟨hid, hID, by decide⟩

lemma legible_rootMember (op : Operation) (h : IsName type) : (rootMember op type).Legible where
  name := isName_field op h
  arguments := by
    have hinput : IsName "input" := isName_iff.mp (by decide)
    intro a ha
    cases op with
    | get =>
      obtain rfl := List.mem_singleton.mp ha
      exact ⟨isName_iff.mp (by decide), ⟨rfl, isName_iff.mp (by decide)⟩, by decide⟩
    | list =>
      rcases List.mem_pair.mp ha with rfl | rfl
      · exact ⟨isName_iff.mp (by decide), isName_iff.mp (by decide), by decide⟩
      · exact ⟨isName_iff.mp (by decide), isName_iff.mp (by decide), by decide⟩
    | create | update | delete =>
      obtain rfl := List.mem_singleton.mp ha
      exact ⟨hinput, ⟨rfl, isName_inputName _ h⟩, Nat.zero_le _⟩
  type := by
    change IsName (if op = .list then connectionName type else type)
    split
    · exact isName_connectionName h
    · exact h
  bounded := Nat.zero_le _

lemma legible_rootMembers (root : String) {os : List ObjectType}
    (names : ∀ o ∈ os, IsName o.name) : ∀ m ∈ rootMembers root os, m.Legible := by
  intro m hm
  obtain ⟨o, ho, hm⟩ := List.mem_flatMap.mp hm
  obtain ⟨op, _, rfl⟩ := List.mem_map.mp hm
  exact legible_rootMember op (names o ho)

lemma legible_of_mem_objects {s : Schema} (legible : s.Legible) {o : ObjectType}
    (ho : o ∈ s.objects) : IsName o.name ∧ ∀ f ∈ o.fields, f.Legible := by
  obtain ⟨d, hd, heq⟩ := List.mem_filterMap.mp ho
  cases d with
  | object o' => exact Option.some.inj heq ▸ legible _ hd
  | enum e => cases heq

/-- All that compiling adds to a schema can be spelled out if the schema can. -/
lemma legible_generated {s : Schema} (legible : s.Legible) : ∀ d ∈ generated s, d.Legible := by
  have types : ∀ o ∈ s.modelTypes, IsName o.name ∧ ∀ f ∈ o.fields, f.Legible :=
    fun o ho => legible_of_mem_objects legible (Schema.mem_modelTypes.mp ho).1
  have hroots : ∀ d ∈ roots s.modelTypes, d.Legible := by
    intro d hd
    rcases List.mem_pair.mp hd with rfl | rfl
    · exact ⟨isName_iff.mp (by decide), legible_rootMembers _ fun o ho => (types o ho).1⟩
    · exact ⟨isName_iff.mp (by decide), legible_rootMembers _ fun o ho => (types o ho).1⟩
  intro d hd
  rw [generated] at hd
  split at hd
  · cases hd
  · rcases List.mem_append.mp hd with hd | hd
    · obtain ⟨o, ho, hd⟩ := List.mem_flatMap.mp hd
      exact legible_typeDeclarations _ (types o ho).1 (types o ho).2 d hd
    · exact hroots d hd

/-- The text of a compiled schema declares what is printed in it. -/
theorem read_text {s : Schema} (legible : s.Legible) : read (text s) = .ok (compiled s) := by
  refine read_blocks (List.forall_mem_append.mpr ⟨fun d hd => ?_, legible_generated legible⟩)
  obtain ⟨d', hd', rfl⟩ := List.mem_map.mp hd
  exact legible_ofDefinition (legible d' hd')

end Sdl

/-! ## The documents that have it -/

/-- With the model types the document has the text, whether or not there are any. -/
lemma Model.definition_built (name : String) (config : BuildConfig) (s : Schema) :
    (built name config s).document.property? Api.schemaId "Definition" =
      some (.string (Sdl.text s)) := by
  have hschema : (Api.built name s).document.get? Api.schemaId = some (Api.schema s) := rfl
  rw [Document.property?, get?_built, hschema]
  change (Context.amended (extension s) Api.schemaId (Api.schema s)).property? "Definition" = _
  by_cases h : s.modelTypes = []
  · rw [extension, h, Sdl.text_of_no_modelTypes h]
    rfl
  · rw [extension, if_neg (mt List.isEmpty_iff.mp h), Sdl.text_of_modelTypes h]
    rfl

/-- Relations amend tables, and so they leave the text as it is. -/
lemma Connection.definition_built (name : String) (config : BuildConfig) (s : Schema)
    (rs : List Relation) :
    (built name config s rs).document.property? Api.schemaId "Definition" =
      some (.string (Sdl.text s)) := by
  have hmodel := Model.definition_built name config s
  rw [Document.property?] at hmodel ⊢
  obtain ⟨r, hr, hdefinition⟩ := Option.bind_eq_some_iff.mp hmodel
  have notTable : ∀ o ∈ s.modelTypes, Api.schemaId ≠ Model.Part.table.id o.name := by
    intro o _ heq
    exact Model.Part.id_notMem_api o.name .table (by simp [← heq])
  rw [get?_built_of_ne_table hr notTable]
  exact hdefinition

/-- Authorization amends the API and the resolvers, and not the text. -/
lemma Auth.definition_built (pool name : String) (config : BuildConfig) (s : Schema)
    (rs : List Relation) :
    (built pool name config s rs).document.property? Api.schemaId "Definition" =
      some (.string (Sdl.text s)) := by
  rw [property?_built_of_untouched, Connection.definition_built]
  intro a ha _
  rcases mem_amendments.mp ha with hapi | ⟨_, _, _, _, op, hop⟩
  · rcases mem_apiAmendments.mp hapi with rfl | rfl <;> simp
  · rcases mem_guardsOfOperation.mp hop with rfl | ⟨_, _, rfl⟩ <;> simp

namespace Pipeline

/-- What the standard pipeline compiles comes from a schema that was read, and the text in the
document declares what that schema does and what goes with its model types. -/
lemma exists_compiled {c : BuildConfig} {p : Pipeline} (hp : standard c = .ok p) {text : String}
    {d : Document} (compiled : p.compile text = .ok d) :
    ∃ s, Schema.parse text = .ok s ∧ p.compileSchema s = .ok d ∧
      d.property? Api.schemaId "Definition" = some (.string (Sdl.text s)) ∧
      Sdl.read (Sdl.text s) = .ok (Sdl.compiled s) := by
  rw [compile] at compiled
  cases hparse : Schema.parse text with
  | error e =>
    rw [hparse] at compiled
    cases compiled
  | ok s =>
    rw [hparse] at compiled
    have distinct := Schema.nodup_objects (Schema.check_of_parse hparse)
    obtain ⟨rs, _, hd⟩ := built_of_compileSchema hp distinct compiled
    refine ⟨s, rfl, compiled, ?_, Sdl.read_text (Schema.legible_of_parse hparse).1⟩
    rcases hd with rfl | ⟨pool, rfl⟩
    · exact Connection.definition_built _ _ _ _
    · exact Auth.definition_built _ _ _ _ _

end Pipeline

end SchemaStack
