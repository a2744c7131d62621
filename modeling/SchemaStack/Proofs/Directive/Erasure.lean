import SchemaStack.Proofs.Directive.Annotation
/-!
# Schemas without their authorization rules

Erasing every `@auth` of a schema changes neither its validity nor its text. The stages before
authorization look at the directives of their own and make the same of the erased schema.
-/

namespace SchemaStack

def withoutAuth (ds : List Directive) : List Directive := ds.filter fun d => d.name != "auth"

def Field.eraseAuth (f : Field) : Field := { f with directives := withoutAuth f.directives }

def ObjectType.eraseAuth (o : ObjectType) : ObjectType :=
  { o with directives := withoutAuth o.directives, fields := o.fields.map Field.eraseAuth }

def Definition.eraseAuth : Definition → Definition
  | .object o => .object o.eraseAuth
  | .enum e => .enum e

/-- The schema without its `@auth` directives. -/
def Schema.eraseAuth (s : Schema) : Schema := ⟨s.definitions.map Definition.eraseAuth⟩

lemma mem_withoutAuth {ds : List Directive} {d : Directive} :
    d ∈ withoutAuth ds ↔ d ∈ ds ∧ d.name ≠ "auth" := by
  simp [withoutAuth]

lemma directiveNamed?_withoutAuth (ds : List Directive) {name : String} (h : name ≠ "auth") :
    directiveNamed? (withoutAuth ds) name = directiveNamed? ds name := by
  rw [directiveNamed?, withoutAuth, List.find?_filter, directiveNamed?]
  refine congrArg (List.find? · ds) (funext fun d => ?_)
  by_cases hd : d.name = name
  · simp [hd, h]
  · simp [hd]

/-- Directives of other names are kept with their arguments. -/
lemma transparent_withoutAuth {name : String} (h : name ≠ "auth") :
    Transparent withoutAuth name :=
  fun ds => congrArg (Option.map Directive.arguments) (directiveNamed?_withoutAuth ds h)

namespace Schema

lemma eraseAuth_eq_annotate (s : Schema) : s.eraseAuth = s.annotate withoutAuth id := by
  rw [eraseAuth, annotate]
  refine congrArg (fun g => Schema.mk (s.definitions.map g)) (funext fun d => ?_)
  cases d <;> rfl

lemma objects_eraseAuth (s : Schema) :
    s.eraseAuth.objects = s.objects.map ObjectType.eraseAuth := by
  rw [eraseAuth_eq_annotate, objects_annotate]
  rfl

/-! ## Validity of the erased schema -/

lemma enums_eraseAuth (s : Schema) : s.eraseAuth.enums = s.enums := by
  rw [eraseAuth_eq_annotate, enums_annotate]
  exact List.map_id s.enums

lemma names_eraseAuth (s : Schema) : s.eraseAuth.names = s.names := by
  rw [eraseAuth_eq_annotate, names_annotate]

lemma definitions_eraseAuth (seen : Entries Nat) (ds : List Definition) :
    Validity.definitions seen (ds.map Definition.eraseAuth) = Validity.definitions seen ds := by
  induction ds generalizing seen with
  | nil => rfl
  | cons d ds ih =>
    have hname : d.eraseAuth.name = d.name := by cases d <;> rfl
    have hline : d.eraseAuth.line = d.line := by cases d <;> rfl
    simp only [List.map_cons, Validity.definitions, hname, hline, ih]

lemma fields_eraseAuth (declared : List String) (type : String) (seen : List String)
    (fs : List Field) :
    Validity.fields declared type seen (fs.map Field.eraseAuth) =
      Validity.fields declared type seen fs := by
  induction fs generalizing seen with
  | nil => rfl
  | cons f fs ih => simp only [List.map_cons, Validity.fields, Field.eraseAuth, ih]

lemma objectsCheck_eraseAuth (declared : List String) (os : List ObjectType) :
    Validity.objects declared (os.map ObjectType.eraseAuth) = Validity.objects declared os := by
  induction os with
  | nil => rfl
  | cons o os ih =>
    simp only [List.map_cons, Validity.objects, ObjectType.eraseAuth, fields_eraseAuth, ih,
      List.isEmpty_map]

/-- Validity does not depend on the rules. -/
lemma check_eraseAuth (s : Schema) : s.eraseAuth.check = s.check := by
  rw [check, check, enums_eraseAuth, names_eraseAuth, objects_eraseAuth, objectsCheck_eraseAuth]
  exact congrArg (fun x => do x; Validity.enums s.enums; Validity.objects s.names s.objects)
    (definitions_eraseAuth [] s.definitions)

end Schema

/-! ## Builds of the erased schema -/

lemma Connection.document_built_eraseAuth (name : String) (config : BuildConfig) (s : Schema)
    (rs : List Relation) :
    (built name config s.eraseAuth rs).document = (built name config s rs).document := by
  rw [s.eraseAuth_eq_annotate]
  exact document_built_annotate (transparent_withoutAuth (by decide)) name config s rs

/-- Before authorization, a schema and its erasure have the same relations, if they have any. -/
lemma Pipeline.founded_eraseAuth_iff {name : String} {config : BuildConfig} {connections : Bool}
    {s : Schema} {rs : List Relation} :
    Founded name config connections s.eraseAuth rs ↔ Founded name config connections s rs := by
  rw [s.eraseAuth_eq_annotate]
  exact founded_annotate_iff (transparent_withoutAuth (by decide))
    (transparent_withoutAuth (by decide))

end SchemaStack
