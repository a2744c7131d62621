import SchemaStack.Build.Pipeline
import Mathlib.Tactic.Common
/-!
# Directives that have a meaning

Checking the directives of a schema asks one thing of each of them: that a stage of the pipeline
handles it where it stands.
-/

namespace SchemaStack.Pipeline

/-- Some stage gives the directive a meaning at this place. -/
def Handles (handled : List DirectiveSpec) (location : Location) (d : Directive) : Prop :=
  ∃ spec ∈ handled, spec.name = d.name ∧ spec.location = location

lemma checkDirective_eq_ok_iff {handled : List DirectiveSpec} {location : Location}
    {d : Directive} :
    checkDirective handled location d = .ok () ↔ Handles handled location d := by
  have hmem : ((handled.filter fun s => s.name == d.name).any fun s => s.location == location) =
      true ↔ Handles handled location d := by
    simp [Handles]
  rw [checkDirective, ← hmem]
  cases hspecs : handled.filter fun s => s.name == d.name with
  | nil => simp
  | cons spec specs =>
    by_cases hany : ((spec :: specs).any fun s => s.location == location) = true
    · simp only [List.isEmpty_cons, Bool.false_eq_true, if_false, hany, if_true]
    · simp only [List.isEmpty_cons, Bool.false_eq_true, if_false, hany, reduceCtorEq]

lemma checkAll_eq_ok_iff {handled : List DirectiveSpec} {ds : List (Location × Directive)} :
    checkAll handled ds = .ok () ↔ ∀ x ∈ ds, Handles handled x.1 x.2 := by
  induction ds with
  | nil => simp [checkAll]
  | cons x ds ih =>
    obtain ⟨location, d⟩ := x
    rw [List.forall_mem_cons, ← ih, ← checkDirective_eq_ok_iff, checkAll]
    cases checkDirective handled location d with
    | error e => simp
    | ok u => simp

lemma checkDirectives_eq_ok_iff {p : Pipeline} {s : Schema} :
    p.checkDirectives s = .ok () ↔
      ∀ o ∈ s.objects, ∀ x ∈ directivesOf o, Handles p.directives x.1 x.2 := by
  rw [checkDirectives, checkAll_eq_ok_iff]
  constructor
  · intro h o ho x hx
    exact h x (List.mem_flatMap.mpr ⟨o, ho, hx⟩)
  · intro h x hx
    obtain ⟨o, ho, hx⟩ := List.mem_flatMap.mp hx
    exact h o ho x hx

lemma mem_directivesOf_object {o : ObjectType} {d : Directive} :
    (Location.object, d) ∈ directivesOf o ↔ d ∈ o.directives := by
  simp [directivesOf]

lemma mem_directivesOf_field {o : ObjectType} {d : Directive} :
    (Location.field, d) ∈ directivesOf o ↔ ∃ f ∈ o.fields, d ∈ f.directives := by
  simp [directivesOf]

lemma directiveNamed?_isSome_iff {ds : List Directive} {name : String} :
    (directiveNamed? ds name).isSome ↔ ∃ d ∈ ds, d.name = name := by
  simp [directiveNamed?, List.find?_isSome]

end SchemaStack.Pipeline
