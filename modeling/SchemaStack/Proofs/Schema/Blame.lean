import SchemaStack.Proofs.Schema.Validity
import Mathlib.Data.List.Nodup
/-!
# What a fault of a schema is about

A schema that is not valid is refused for one of its definitions or fields, on the line of that
one. The check goes through the definitions with what came before them at hand, so of definitions
or fields of one name the later one is to blame, and the earlier one is the first of its name.
-/

namespace SchemaStack

/-- The definition or field that a fault is about, and its line. -/
inductive Schema.Blames (s : Schema) : ValidityFault → Nat → Prop
  | reservedName {d : Definition} (mem : d ∈ s.definitions) (reserved : d.name ∈ reservedTypes) :
      Blames s (.reservedName d.name) d.line
  | builtinName {d : Definition} (mem : d ∈ s.definitions) (builtin : d.name ∈ builtinScalars) :
      Blames s (.builtinName d.name) d.line
  | duplicateType {before between after : List Definition} {first later : Definition}
      (split : s.definitions = before ++ first :: (between ++ later :: after))
      (same : first.name = later.name)
      (distinct : ((before ++ first :: between).map Definition.name).Nodup) :
      Blames s (.duplicateType later.name first.line) later.line
  | emptyEnum {e : EnumType} (mem : e ∈ s.enums) (empty : e.values = []) :
      Blames s (.emptyEnum e.name) e.line
  | emptyType {o : ObjectType} (mem : o ∈ s.objects) (empty : o.fields = []) :
      Blames s (.emptyType o.name) o.line
  | duplicateField {o : ObjectType} (mem : o ∈ s.objects) {before between after : List Field}
      {first later : Field} (split : o.fields = before ++ first :: (between ++ later :: after))
      (same : first.name = later.name)
      (distinct : ((before ++ first :: between).map Field.name).Nodup) :
      Blames s (.duplicateField o.name later.name) later.line
  | unknownReference {o : ObjectType} (mem : o ∈ s.objects) {f : Field} (field : f ∈ o.fields)
      (builtin : f.type.base ∉ builtinScalars) (declared : f.type.base ∉ s.names) :
      Blames s (.unknownReference o.name f.name f.type.base) f.line

namespace Validity

open Schema (Blames)

variable {s : Schema} {x : SchemaError}

/-- The refusal is for something in the schema. -/
def Blamed (s : Schema) (x : SchemaError) : Prop :=
  ∃ f line, x = (Fault.invalid f).onLine line ∧ Blames s f line

lemma blamed_of_fail {f : ValidityFault} {line : Nat}
    (h : (fail f line : Except SchemaError Unit) = .error x) (blames : Blames s f line) :
    Blamed s x :=
  ⟨f, line, (Except.error.inj h).symm, blames⟩

lemma nodup_map_concat {α β : Type} {f : α → β} {xs : List α} {x : α}
    (distinct : (xs.map f).Nodup) (hnew : f x ∉ xs.map f) : ((xs ++ [x]).map f).Nodup := by
  rw [List.map_append, List.map_singleton, ← List.concat_eq_append]
  exact List.Nodup.concat hnew distinct

/-- `done` are the definitions that have been seen. -/
lemma blamed_of_definitions {done ds : List Definition} (split : s.definitions = done ++ ds)
    (distinct : (done.map Definition.name).Nodup)
    (h : definitions (done.map fun d => (d.name, d.line)) ds = .error x) : Blamed s x := by
  induction ds generalizing done with
  | nil => cases h
  | cons d ds ih =>
    have mem : d ∈ s.definitions := split ▸ List.mem_append_right _ List.mem_cons_self
    rw [definitions, Entries.get?_map_key] at h
    by_cases hreserved : d.name ∈ Schema.reservedTypes
    · rw [if_pos (List.contains_iff_mem.mpr hreserved)] at h
      exact blamed_of_fail h (.reservedName mem hreserved)
    rw [if_neg (mt List.contains_iff_mem.mp hreserved)] at h
    by_cases hbuiltin : d.name ∈ Schema.builtinScalars
    · rw [if_pos (Schema.isBuiltinScalar_iff.mpr hbuiltin)] at h
      exact blamed_of_fail h (.builtinName mem hbuiltin)
    rw [if_neg (mt Schema.isBuiltinScalar_iff.mp hbuiltin)] at h
    cases hfirst : done.find? fun d' => d'.name == d.name with
    | some first =>
      rw [hfirst] at h
      have same : first.name = d.name := by simpa using List.find?_some hfirst
      obtain ⟨before, between, rfl⟩ := List.append_of_mem (List.mem_of_find?_eq_some hfirst)
      have parts : s.definitions = before ++ first :: (between ++ d :: ds) := by
        rw [split, List.append_assoc, List.cons_append]
      exact blamed_of_fail h (.duplicateType parts same distinct)
    | none =>
      rw [hfirst] at h
      have hnew : d.name ∉ done.map Definition.name := by simpa using List.find?_eq_none.mp hfirst
      refine ih (split.trans (List.append_cons done d ds)) (nodup_map_concat distinct hnew) ?_
      rwa [List.map_append, List.map_singleton]

lemma blamed_of_enums {es : List EnumType} (sub : ∀ e ∈ es, e ∈ s.enums)
    (h : enums es = .error x) : Blamed s x := by
  induction es with
  | nil => cases h
  | cons e es ih =>
    rw [List.forall_mem_cons] at sub
    rw [enums] at h
    split at h
    · rename_i hempty
      exact blamed_of_fail h (.emptyEnum sub.1 (List.isEmpty_iff.mp hempty))
    · exact ih sub.2 h

/-- `done` are the fields of the type that have been seen. -/
lemma blamed_of_fields {o : ObjectType} (mem : o ∈ s.objects) {done fs : List Field}
    (split : o.fields = done ++ fs) (distinct : (done.map Field.name).Nodup)
    (h : fields s.names o.name (done.map Field.name) fs = .error x) : Blamed s x := by
  induction fs generalizing done with
  | nil => cases h
  | cons f fs ih =>
    rw [fields] at h
    by_cases hseen : f.name ∈ done.map Field.name
    · rw [if_pos (List.contains_iff_mem.mpr hseen)] at h
      obtain ⟨first, hfirst, same⟩ := List.mem_map.mp hseen
      obtain ⟨before, between, rfl⟩ := List.append_of_mem hfirst
      have parts : o.fields = before ++ first :: (between ++ f :: fs) := by
        rw [split, List.append_assoc, List.cons_append]
      exact blamed_of_fail h (.duplicateField mem parts same distinct)
    rw [if_neg (mt List.contains_iff_mem.mp hseen)] at h
    split at h
    · refine ih (split.trans (List.append_cons done f fs)) (nodup_map_concat distinct hseen) ?_
      rwa [List.map_append, List.map_singleton]
    · rename_i hunknown
      rw [Bool.or_eq_true, Schema.isBuiltinScalar_iff, List.contains_iff_mem, not_or] at hunknown
      have field : f ∈ o.fields := split ▸ List.mem_append_right _ List.mem_cons_self
      exact blamed_of_fail h (.unknownReference mem field hunknown.1 hunknown.2)

lemma blamed_of_objects {os : List ObjectType} (sub : ∀ o ∈ os, o ∈ s.objects)
    (h : objects s.names os = .error x) : Blamed s x := by
  induction os with
  | nil => cases h
  | cons o os ih =>
    rw [List.forall_mem_cons] at sub
    rw [objects] at h
    split at h
    · rename_i hempty
      exact blamed_of_fail h (.emptyType sub.1 (List.isEmpty_iff.mp hempty))
    · cases hfields : fields s.names o.name [] o.fields with
      | error e =>
        rw [hfields] at h
        obtain rfl := Except.error.inj h
        exact blamed_of_fields sub.1 (List.nil_append o.fields).symm List.nodup_nil hfields
      | ok u =>
        rw [hfields] at h
        exact ih sub.2 h

end Validity

namespace Schema

open Validity (Blamed)

lemma blamed_of_check {s : Schema} {x : SchemaError} (h : s.check = .error x) : Blamed s x := by
  rcases bind_eq_error h with h | ⟨_, _, h⟩
  · exact Validity.blamed_of_definitions (List.nil_append s.definitions).symm List.nodup_nil h
  rcases bind_eq_error h with h | ⟨_, _, h⟩
  · exact Validity.blamed_of_enums (fun _ => id) h
  · exact Validity.blamed_of_objects (fun _ => id) h

end Schema

end SchemaStack
