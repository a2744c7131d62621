import SchemaStack.Proofs.Directive.Foundation
import SchemaStack.Proofs.Schema.RoundTrip
/-!
# Annotations that do not count

The stages look at the arguments of the directives that they handle. Other directives can be put
in a schema or taken out of it, and lines, which are for faults to point at, can be changed: the
model types, the relations and the document that are made of it stay as they are.
-/

namespace SchemaStack

/-- Putting other directives in place keeps the arguments of the directive of this name, if there is
one. -/
def Transparent (mark : List Directive → List Directive) (name : String) : Prop :=
  ∀ ds, (directiveNamed? (mark ds) name).map Directive.arguments =
    (directiveNamed? ds name).map Directive.arguments

section Annotations

variable {mark : List Directive → List Directive} {place : Nat → Nat}

namespace ObjectType

variable (place) in
/-- A directive whose arguments are kept is still there if it was. -/
lemma isSome_directive?_annotate {name : String} (kept : Transparent mark name) (o : ObjectType) :
    ((o.annotate mark place).directive? name).isSome = (o.directive? name).isSome := by
  have h := congrArg Option.isSome (kept o.directives)
  rwa [Option.isSome_map, Option.isSome_map] at h

lemma field?_annotate (o : ObjectType) (name : String) :
    (o.annotate mark place).field? name = (o.field? name).map (Field.annotate mark place) :=
  List.find?_map

end ObjectType

lemma Field.isSome_directive?_annotate {name : String} (kept : Transparent mark name) (f : Field) :
    ((f.annotate mark place).directive? name).isSome = (f.directive? name).isSome := by
  have h := congrArg Option.isSome (kept f.directives)
  rwa [Option.isSome_map, Option.isSome_map] at h

namespace Schema

lemma map_name_annotate (os : List ObjectType) :
    (os.map (ObjectType.annotate mark place)).map ObjectType.name = os.map ObjectType.name :=
  List.map_map

/-- The same types are model types, with their new directives. -/
lemma modelTypes_annotate (kept : Transparent mark "model") (s : Schema) :
    (s.annotate mark place).modelTypes = s.modelTypes.map (ObjectType.annotate mark place) := by
  rw [modelTypes, objects_annotate, List.filter_map, modelTypes]
  exact congrArg (fun p => (s.objects.filter p).map (ObjectType.annotate mark place))
    (funext fun o => o.isSome_directive?_annotate place kept)

/-- The same fields have a relation, with their new directives. -/
lemma connectionFields_annotate (kept : Transparent mark "connection") (s : Schema) :
    (s.annotate mark place).connectionFields =
      s.connectionFields.map fun x => (x.1.annotate mark place, x.2.annotate mark place) := by
  have hfields : ∀ fs : List Field,
      ((fs.map (Field.annotate mark place)).filter fun f => (f.directive? "connection").isSome) =
        (fs.filter fun f => (f.directive? "connection").isSome).map
          (Field.annotate mark place) := by
    intro fs
    rw [List.filter_map]
    exact congrArg (fun p => (fs.filter p).map (Field.annotate mark place))
      (funext fun f => f.isSome_directive?_annotate kept)
  rw [connectionFields, objects_annotate, List.flatMap_map, connectionFields, List.map_flatMap]
  refine List.flatMap_congr fun o _ => ?_
  change ((o.fields.map (Field.annotate mark place)).filter _).map _ = _
  rw [hfields, List.map_map, List.map_map]
  rfl

end Schema

end Annotations

/-! ## Model types -/

namespace Model

/-- A model type is in order if its directive has no arguments and its ID cannot be missing. -/
lemma check_eq_ok_iff {o : ObjectType} :
    check o = .ok () ↔
      (∀ arguments ∈ (o.directive? "model").map Directive.arguments, arguments = []) ∧
        ((o.field? "id").any fun f => f.type == .nonNull (.named "ID")) = true := by
  have hid : check.checkId o = .ok () ↔
      ((o.field? "id").any fun f => f.type == .nonNull (.named "ID")) = true := by
    rw [check.checkId]
    split <;> simp [*]
  rw [check, ← hid]
  cases o.directive? "model" with
  | none => simp
  | some d => by_cases hempty : d.arguments = [] <;> simp [hempty]

lemma checkAll_eq_ok_iff {os : List ObjectType} :
    checkAll os = .ok () ↔ ∀ o ∈ os, check o = .ok () := by
  induction os with
  | nil => simp [checkAll]
  | cons o os ih =>
    rw [checkAll, List.forall_mem_cons, ← ih]
    cases check o with
    | error e => simp
    | ok u => simp

section Annotations

variable {mark : List Directive → List Directive} {place : Nat → Nat}

lemma check_annotate_iff (kept : Transparent mark "model") {o : ObjectType} :
    check (o.annotate mark place) = .ok () ↔ check o = .ok () := by
  have hid : (((o.annotate mark place).field? "id").any fun f => f.type == .nonNull (.named "ID")) =
      (o.field? "id").any fun f => f.type == .nonNull (.named "ID") := by
    rw [o.field?_annotate, Option.any_map]
    rfl
  have harguments : ((o.annotate mark place).directive? "model").map Directive.arguments =
      (o.directive? "model").map Directive.arguments := kept o.directives
  rw [check_eq_ok_iff, check_eq_ok_iff, hid, harguments]

lemma checkAll_annotate_iff (kept : Transparent mark "model") (s : Schema) :
    checkAll (s.annotate mark place).modelTypes = .ok () ↔ checkAll s.modelTypes = .ok () := by
  rw [checkAll_eq_ok_iff, checkAll_eq_ok_iff, Schema.modelTypes_annotate kept, List.forall_mem_map]
  exact forall₂_congr fun o _ => check_annotate_iff kept

lemma typeBlocks_annotate (enums : List String) (o : ObjectType) :
    typeBlocks enums (o.annotate mark place) = typeBlocks enums o := by
  have hinputs : (o.annotate mark place).fields.filter (isInputField enums) =
      (o.fields.filter (isInputField enums)).map (Field.annotate mark place) := List.filter_map
  simp only [typeBlocks, hinputs, List.map_map]
  rfl

/-- What is printed for model types shows their fields without directives and lines. -/
lemma schemaText_annotate (enums : List String) (os : List ObjectType) :
    schemaText enums (os.map (ObjectType.annotate mark place)) = schemaText enums os := by
  have hblocks : (os.map (ObjectType.annotate mark place)).flatMap (typeBlocks enums) =
      os.flatMap (typeBlocks enums) := by
    rw [List.flatMap_map]
    exact congrArg (List.flatMap · os) (funext (typeBlocks_annotate enums))
  have hfields : ∀ root, rootFields root (os.map (ObjectType.annotate mark place)) =
      rootFields root os := fun root => List.flatMap_map ..
  rw [schemaText, schemaText, hblocks, hfields, hfields]

lemma contribution_annotate (kept : Transparent mark "model") (config : BuildConfig) (s : Schema) :
    contribution config (s.annotate mark place) = contribution config s := by
  have henums : (s.annotate mark place).enums.map EnumType.name = s.enums.map EnumType.name := by
    rw [Schema.enums_annotate, List.map_map]
    rfl
  rw [contribution, contribution, extension, extension, Schema.modelTypes_annotate kept,
    Schema.map_name_annotate, Schema.text_annotate, henums, schemaText_annotate, List.isEmpty_map]

lemma model?_annotate (kept : Transparent mark "model") (s : Schema) (name : String) :
    (registered (s.annotate mark place)).model? name = (registered s).model? name := by
  refine congrArg (Entries.get? · name) ?_
  change ((s.annotate mark place).modelTypes.map fun o => (o.name, ofType o.name)) = _
  rw [Schema.modelTypes_annotate kept, List.map_map]
  rfl

/-- The types that are known by name are the annotated ones. -/
lemma types_annotate (s : Schema) (name : String) :
    (registered (s.annotate mark place)).types.get? name =
      ((registered s).types.get? name).map (ObjectType.annotate mark place) := by
  have htypes : (registered (s.annotate mark place)).types =
      (registered s).types.map fun e => (e.1, e.2.annotate mark place) := by
    change (s.annotate mark place).objects.map (fun o => (o.name, o)) =
      (s.objects.map fun o => (o.name, o)).map _
    rw [Schema.objects_annotate, List.map_map, List.map_map]
    rfl
  rw [htypes]
  exact Entries.get?_map (ObjectType.annotate mark place) _ _

/-- With the model types the documents are equal, not only alike. -/
lemma document_built_annotate (kept : Transparent mark "model") (name : String)
    (config : BuildConfig) (s : Schema) :
    (built name config (s.annotate mark place)).document = (built name config s).document := by
  have hapi : Api.contribution name (s.annotate mark place) = Api.contribution name s := by
    rw [Api.contribution, Api.schema, Schema.text_annotate]
    rfl
  change Context.apply (Context.apply .empty (Api.contribution name (s.annotate mark place)))
    (contribution config (s.annotate mark place)) = _
  rw [hapi, contribution_annotate kept]
  rfl

end Annotations

end Model

/-! ## Relations -/

namespace Connection

/-- The name that the arguments of a directive give a relation, where they are in order. -/
def relationName? (arguments : Entries Literal) : Option (Option String) :=
  match arguments.keys.find? (· ≠ "name"), arguments.get? "name" with
  | some _, _ => none
  | none, none => some none
  | none, some v => v.text?.map some

/-- The arguments decide on the name. They do not decide on the fault, which points to a line, so
that from here on only results are compared. -/
lemma toOption_name? (o : ObjectType) (f : Field) :
    (name? o f).toOption =
      ((f.directive? "connection").map Directive.arguments).elim (some none) relationName? := by
  rw [name?]
  cases f.directive? "connection" with
  | none => rfl
  | some d =>
    simp only [Option.map_some, Option.elim_some, relationName?]
    cases d.arguments.keys.find? (· ≠ "name") with
    | some arg => rfl
    | none =>
      cases d.arguments.get? "name" with
      | none => rfl
      | some v =>
        dsimp only
        cases v.text? <;> rfl

section Annotations

variable {mark : List Directive → List Directive} {place : Nat → Nat}
variable (kept : Transparent mark "connection")
include kept

variable (place) in
lemma toOption_name?_annotate (o : ObjectType) (f : Field) :
    (name? (o.annotate mark place) (f.annotate mark place)).toOption = (name? o f).toOption := by
  have harguments : ((f.annotate mark place).directive? "connection").map Directive.arguments =
      (f.directive? "connection").map Directive.arguments := kept f.directives
  rw [toOption_name?, toOption_name?, harguments]

variable (place) in
/-- By induction on the fields: the first list that goes with a named field is in the same place. -/
lemma toOption_pairedList?_annotate (target : ObjectType) (parent name : String)
    (fs : List Field) :
    (pairedList? (target.annotate mark place) parent name
        (fs.map (Field.annotate mark place))).toOption =
      (pairedList? target parent name fs).toOption.map
        (Option.map (Field.annotate mark place)) := by
  induction fs with
  | nil => rfl
  | cons f fs ih =>
    rw [List.map_cons, pairedList?, pairedList?]
    change (if f.type.base = parent then _ else _ : Except _ _).toOption = _
    split
    · rcases cases_of_toOption_eq (toOption_name?_annotate place kept target f) with
        ⟨n, hn', hn⟩ | ⟨e', e, hn', hn⟩
      · rw [hn', hn]
        change (if n = some name ∧ f.type.isList then _ else _ : Except _ _).toOption = _
        dsimp only
        split
        · rfl
        · exact ih
      · rw [hn', hn]
        rfl
    · exact ih

lemma pointsBack_annotate (target : ObjectType) (parent name : String) :
    pointsBack (target.annotate mark place) parent name = pointsBack target parent name := by
  rw [pointsBack, pointsBack]
  change (target.fields.map (Field.annotate mark place)).any _ = _
  rw [List.any_map]
  refine congrArg (List.any target.fields) (funext fun f => ?_)
  rw [Function.comp_apply]
  rcases cases_of_toOption_eq (toOption_name?_annotate place kept target f) with
    ⟨n, hn', hn⟩ | ⟨e', e, hn', hn⟩ <;> rw [hn', hn] <;> rfl

lemma toOption_resolveList_annotate (o target : ObjectType) (f : Field) (name : Option String) :
    (resolveList (o.annotate mark place) (target.annotate mark place) (f.annotate mark place)
        name).toOption = (resolveList o target f name).toOption := by
  have hpoints : pointsBack (target.annotate mark place) (o.annotate mark place).name =
      pointsBack target o.name := funext fun n => pointsBack_annotate kept target o.name n
  rw [resolveList, resolveList, hpoints]
  split
  · change (if target.name ≠ o.name then _ else _ : Except _ _).toOption = _
    split <;> rfl
  · rfl

lemma toOption_resolveSingle_annotate (o target : ObjectType) (f : Field)
    (name : Option String) :
    (resolveSingle (o.annotate mark place) (target.annotate mark place) (f.annotate mark place)
        name).toOption = (resolveSingle o target f name).toOption := by
  cases name with
  | none => rfl
  | some n =>
    have hpaired :=
      toOption_pairedList?_annotate place kept target o.name n target.fields
    change (pairedList? (target.annotate mark place) o.name n
      (target.fields.map (Field.annotate mark place)) >>= _ : Except _ _).toOption =
        (pairedList? target o.name n target.fields >>= _).toOption
    rw [toOption_bind, toOption_bind, hpaired, Option.bind_map]
    -- of the paired list only the name counts
    refine congrArg _ (funext fun paired => ?_)
    cases paired <;> rfl

variable (models : Transparent mark "model")
include models

/-- A field with a relation is resolved to the same relation, or to none in both schemas. -/
lemma toOption_resolve_annotate (s : Schema) (o : ObjectType) (f : Field) :
    (resolve (Model.registered (s.annotate mark place)) (o.annotate mark place)
        (f.annotate mark place)).toOption = (resolve (Model.registered s) o f).toOption := by
  have hname : (o.annotate mark place).name = o.name := rfl
  have htype : (f.annotate mark place).type = f.type := rfl
  rw [resolve, resolve, hname, htype, Model.model?_annotate models, Model.model?_annotate models,
    Model.types_annotate]
  cases (Model.registered s).model? o.name with
  | none => rfl
  | some m =>
    cases (Model.registered s).model? f.type.base with
    | none => rfl
    | some m' =>
      cases (Model.registered s).types.get? f.type.base with
      | none => rfl
      | some target =>
        change (name? (o.annotate mark place) (f.annotate mark place) >>= _ : Except _ _).toOption =
          (name? o f >>= _).toOption
        rw [toOption_bind, toOption_bind, toOption_name?_annotate place kept]
        refine congrArg _ (funext fun name => ?_)
        split
        · exact toOption_resolveList_annotate kept o target f name
        · exact toOption_resolveSingle_annotate kept o target f name

/-- By induction on the fields, with the owners of the indexes so far. -/
lemma toOption_relationsFrom_annotate (s : Schema) (owners : List ((String × String) × String))
    (fs : List (ObjectType × Field)) :
    (relationsFrom (Model.registered (s.annotate mark place)) owners
        (fs.map fun x => (x.1.annotate mark place, x.2.annotate mark place))).toOption =
      (relationsFrom (Model.registered s) owners fs).toOption := by
  induction fs generalizing owners with
  | nil => rfl
  | cons x fs ih =>
    obtain ⟨o, f⟩ := x
    rw [List.map_cons, relationsFrom, relationsFrom, toOption_bind, toOption_bind,
      toOption_resolve_annotate kept models]
    refine congrArg _ (funext fun r => ?_)
    cases r.index with
    | none =>
      dsimp only
      rw [toOption_bind, toOption_bind, ih]
    | some index =>
      dsimp only
      cases owners.lookup (r.target, index) with
      | some first => rfl
      | none =>
        dsimp only
        rw [toOption_bind, toOption_bind, ih]

lemma relations_annotate_iff {s : Schema} {rs : List Relation} :
    relations (Model.registered (s.annotate mark place)) = .ok rs ↔
      relations (Model.registered s) = .ok rs := by
  rw [← toOption_eq_some_iff, ← toOption_eq_some_iff, relations, relations, fields_registered,
    fields_registered, Schema.connectionFields_annotate kept,
    toOption_relationsFrom_annotate kept models]

omit kept in
/-- Relations that are equal contribute equal resources and indexes. -/
lemma contribution_annotate (name : String) (config : BuildConfig) (s : Schema)
    (rs : List Relation) :
    contribution name config (s.annotate mark place) rs = contribution name config s rs := by
  have hmodel : (Model.registered (s.annotate mark place)).model? = (Model.registered s).model? :=
    funext (Model.model?_annotate models s)
  have hindex : addIndex (Model.built name config (s.annotate mark place)).document
      (Model.registered (s.annotate mark place)) =
        addIndex (Model.built name config s).document (Model.registered s) := by
    funext tables r
    rw [addIndex, addIndex, hmodel, Model.document_built_annotate models]
  rw [contribution, contribution, entries, entries, hmodel, hindex]

omit kept in
lemma document_built_annotate (name : String) (config : BuildConfig) (s : Schema)
    (rs : List Relation) :
    (built name config (s.annotate mark place) rs).document =
      (built name config s rs).document := by
  change Context.apply (Model.built name config (s.annotate mark place)).document _ = _
  rw [Model.document_built_annotate models, contribution_annotate models]
  rfl

end Annotations

end Connection

namespace Pipeline

/-- Before authorization, a schema has the same relations with other annotations, if it has any. -/
lemma founded_annotate_iff {mark : List Directive → List Directive} {place : Nat → Nat}
    (kept : Transparent mark "connection") (models : Transparent mark "model") {name : String}
    {config : BuildConfig} {connections : Bool} {s : Schema} {rs : List Relation} :
    Founded name config connections (s.annotate mark place) rs ↔
      Founded name config connections s rs := by
  have haccepts : (Model.built name config (s.annotate mark place)).Accepts
      (Connection.contribution name config (s.annotate mark place) rs) ↔
        (Model.built name config s).Accepts (Connection.contribution name config s rs) := by
    have howners : Entries.keys (Model.built name config (s.annotate mark place)).owners =
        Entries.keys (Model.built name config s).owners := by
      rw [Model.keys_owners_built, Model.keys_owners_built, Model.document_built_annotate models]
    rw [Context.accepts_iff, Context.accepts_iff, howners, Model.document_built_annotate models,
      Connection.contribution_annotate models]
  rw [founded_iff, founded_iff, Model.checkAll_annotate_iff models, haccepts]
  refine and_congr_right fun _ => and_congr_left fun _ => ?_
  cases connections with
  | true => exact Connection.relations_annotate_iff kept models
  | false => rfl

end Pipeline

/-! ## Authorization -/

namespace AuthRules

/-- The rules among directives, where they can be read. -/
def among? (ds : List Directive) : Option (Option AuthRules) :=
  ((directiveNamed? ds "auth").map Directive.arguments).elim (some none)
    fun arguments => (ofArguments arguments).toOption.map some

lemma toOption_ofType? (o : ObjectType) : (ofType? o).toOption = among? o.directives := by
  rw [ofType?, among?]
  change _ = ((o.directive? "auth").map Directive.arguments).elim _ _
  cases o.directive? "auth" with
  | none => rfl
  | some d =>
    simp only [Option.map_some, Option.elim_some]
    cases ofArguments d.arguments <;> rfl

/-- Putting other directives in place keeps what their rules come to. -/
def KeptBy (mark : List Directive → List Directive) : Prop := ∀ ds, among? (mark ds) = among? ds

lemma keptBy_of_transparent {mark : List Directive → List Directive}
    (kept : Transparent mark "auth") : KeptBy mark := by
  intro ds
  rw [among?, among?, kept ds]

end AuthRules

namespace Auth

/-- Whether a type can be guarded depends on the rules that its directives come to. -/
lemma guardable_iff {o : ObjectType} :
    Guardable o ↔ ∃ rules, AuthRules.among? o.directives = some rules ∧
      (rules.isSome → (o.directive? "model").isSome) := by
  simp only [← AuthRules.toOption_ofType?, toOption_eq_some_iff]
  constructor
  · rintro ⟨⟨rules, hr⟩, model⟩
    exact ⟨rules, hr, fun h => model (AuthRules.isSome_of_ofType? hr ▸ h)⟩
  · rintro ⟨rules, hr, model⟩
    exact ⟨⟨rules, hr⟩, fun h => model (AuthRules.isSome_of_ofType? hr ▸ h)⟩

variable {mark : List Directive → List Directive} {place : Nat → Nat}
variable (kept : AuthRules.KeptBy mark)
include kept

variable (place) in
lemma toOption_ofType?_annotate (o : ObjectType) :
    (AuthRules.ofType? (o.annotate mark place)).toOption = (AuthRules.ofType? o).toOption := by
  rw [AuthRules.toOption_ofType?, AuthRules.toOption_ofType?]
  exact kept o.directives

lemma guardable_annotate_iff (models : Transparent mark "model") {o : ObjectType} :
    Guardable (o.annotate mark place) ↔ Guardable o := by
  rw [guardable_iff, guardable_iff, o.isSome_directive?_annotate place models]
  change (∃ rules, AuthRules.among? (mark o.directives) = _ ∧ _) ↔ _
  rw [kept]

/-- Guards are made of the rules alone. -/
lemma guardsOfType_annotate (o : ObjectType) :
    guardsOfType (o.annotate mark place) = guardsOfType o := by
  rw [guardsOfType, guardsOfType]
  rcases cases_of_toOption_eq (toOption_ofType?_annotate place kept o) with
    ⟨rules, hr', hr⟩ | ⟨e', e, hr', hr⟩
  · rw [hr', hr]
    rfl
  · rw [hr', hr]

lemma contribution_annotate (pool : String) (s : Schema) :
    contribution pool (s.annotate mark place) = contribution pool s := by
  have hguards : (s.annotate mark place).objects.flatMap guardsOfType =
      s.objects.flatMap guardsOfType := by
    rw [Schema.objects_annotate, List.flatMap_map]
    exact congrArg (List.flatMap · s.objects) (funext (guardsOfType_annotate kept))
  rw [contribution, contribution, hguards]

lemma document_built_annotate (models : Transparent mark "model") (pool name : String)
    (config : BuildConfig) (s : Schema) (rs : List Relation) :
    (built pool name config (s.annotate mark place) rs).document =
      (built pool name config s rs).document := by
  change Context.apply (Connection.built name config (s.annotate mark place) rs).document _ = _
  rw [Connection.document_built_annotate models, contribution_annotate kept]
  rfl

end Auth

namespace Pipeline

section Annotations

variable {mark : List Directive → List Directive} {place : Nat → Nat}
variable (names : ∀ ds, (mark ds).map Directive.name = ds.map Directive.name)
include names

/-- Whether a directive is handled depends on its name and on where it stands. -/
lemma forall_handles_annotate_iff {specs : List DirectiveSpec} {o : ObjectType} :
    (∀ x ∈ directivesOf (o.annotate mark place), Handles specs x.1 x.2) ↔
      ∀ x ∈ directivesOf o, Handles specs x.1 x.2 := by
  have hmark : ∀ (location : Location) (ds : List Directive),
      (∀ d ∈ mark ds, Handles specs location d) ↔ ∀ d ∈ ds, Handles specs location d := by
    intro location ds
    have hnames : ∀ ds : List Directive, (∀ d ∈ ds, Handles specs location d) ↔
        ∀ n ∈ ds.map Directive.name, ∃ spec ∈ specs, spec.name = n ∧ spec.location = location := by
      intro ds
      rw [List.forall_mem_map]
      rfl
    rw [hnames, hnames, names]
  have hsplit : ∀ o : ObjectType, (∀ x ∈ directivesOf o, Handles specs x.1 x.2) ↔
      (∀ d ∈ o.directives, Handles specs .object d) ∧
        ∀ f ∈ o.fields, ∀ d ∈ f.directives, Handles specs .field d := by
    intro o
    simp only [directivesOf, List.forall_mem_append, List.forall_mem_flatMap, List.forall_mem_map]
  rw [hsplit, hsplit]
  refine and_congr (hmark .object o.directives) ?_
  change (∀ f ∈ o.fields.map (Field.annotate mark place), _) ↔ _
  rw [List.forall_mem_map]
  exact forall₂_congr fun f _ => hmark .field f.directives

/-- The stages handle the directives of both schemas or of neither. -/
lemma checkDirectives_annotate_iff {p : Pipeline} {s : Schema} :
    p.checkDirectives (s.annotate mark place) = .ok () ↔ p.checkDirectives s = .ok () := by
  rw [checkDirectives_eq_ok_iff, checkDirectives_eq_ok_iff, Schema.objects_annotate,
    List.forall_mem_map]
  exact forall₂_congr fun o _ => forall_handles_annotate_iff names

/-- What is compiled does not depend on annotations that none of the stages looks at. -/
theorem compileSchema_annotate_iff (models : Transparent mark "model")
    (relations : Transparent mark "connection") (rules : AuthRules.KeptBy mark) {c : BuildConfig}
    {p : Pipeline} (hp : standard c = .ok p) {s : Schema}
    (distinct : (s.objects.map ObjectType.name).Nodup) {d : Document} :
    p.compileSchema (s.annotate mark place) = .ok d ↔ p.compileSchema s = .ok d := by
  have distinct' : ((s.annotate mark place).objects.map ObjectType.name).Nodup := by
    rwa [Schema.objects_annotate, Schema.map_name_annotate]
  cases hpool : c.userPool with
  | none =>
    rw [compileSchema_eq_ok_iff_of_none hpool hp distinct',
      compileSchema_eq_ok_iff_of_none hpool hp distinct, checkDirectives_annotate_iff names]
    simp only [founded_annotate_iff relations models, Connection.document_built_annotate models]
  | some pool =>
    have hguardable : (∀ o ∈ (s.annotate mark place).objects, Auth.Guardable o) ↔
        ∀ o ∈ s.objects, Auth.Guardable o := by
      rw [Schema.objects_annotate, List.forall_mem_map]
      exact forall₂_congr fun o _ => Auth.guardable_annotate_iff rules models
    rw [compileSchema_eq_ok_iff_of_some hpool hp distinct',
      compileSchema_eq_ok_iff_of_some hpool hp distinct, checkDirectives_annotate_iff names,
      hguardable]
    simp only [founded_annotate_iff relations models, Auth.document_built_annotate rules models]

end Annotations

/-! ## Lines -/

lemma transparent_unplacedDirectives (name : String) : Transparent unplacedDirectives name := by
  intro ds
  rw [directiveNamed?, unplacedDirectives, List.find?_map, Option.map_map]
  rfl

lemma map_name_unplacedDirectives (ds : List Directive) :
    (unplacedDirectives ds).map Directive.name = ds.map Directive.name := List.map_map

/-- Lines are for faults only. -/
theorem compileSchema_unplaced_iff {c : BuildConfig} {p : Pipeline} (hp : standard c = .ok p)
    {s : Schema} (distinct : (s.objects.map ObjectType.name).Nodup) {d : Document} :
    p.compileSchema s.unplaced = .ok d ↔ p.compileSchema s = .ok d :=
  compileSchema_annotate_iff map_name_unplacedDirectives (transparent_unplacedDirectives _)
    (transparent_unplacedDirectives _)
    (AuthRules.keptBy_of_transparent (transparent_unplacedDirectives _)) hp distinct

end Pipeline

end SchemaStack
