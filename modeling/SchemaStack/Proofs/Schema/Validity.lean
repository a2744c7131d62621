import SchemaStack.Schema.Reader
import SchemaStack.Proofs.Fallible
import SchemaStack.Proofs.Entries
/-!
# What a valid schema is

The conditions that the check of a schema decides, without the order in which it looks at them.
-/

namespace SchemaStack

structure Schema.Valid (s : Schema) : Prop where
  free : ∀ n ∈ s.names, n ∉ Schema.reservedTypes ∧ n ∉ Schema.builtinScalars
  distinct : s.names.Nodup
  values : ∀ e ∈ s.enums, e.values ≠ []
  fields : ∀ o ∈ s.objects, o.fields ≠ []
  distinctFields : ∀ o ∈ s.objects, (o.fields.map Field.name).Nodup
  closed : ∀ o ∈ s.objects, ∀ f ∈ o.fields,
    f.type.base ∈ Schema.builtinScalars ∨ f.type.base ∈ s.names

lemma Schema.isBuiltinScalar_iff {n : String} :
    Schema.isBuiltinScalar n = true ↔ n ∈ Schema.builtinScalars := List.contains_iff_mem

namespace Validity

lemma fail_ne_ok (f : ValidityFault) (line : Nat) :
    (fail f line : Except SchemaError Unit) ≠ .ok () := by
  intro h
  cases h

/-- By induction on the definitions, with the names that were seen before. -/
lemma definitions_eq_ok_iff {seen : Entries Nat} {ds : List Definition} :
    definitions seen ds = .ok () ↔
      (∀ n ∈ ds.map Definition.name,
        (n ∉ Schema.reservedTypes ∧ n ∉ Schema.builtinScalars) ∧ n ∉ seen.keys) ∧
      (ds.map Definition.name).Nodup := by
  induction ds generalizing seen with
  | nil => simp [definitions]
  | cons d ds ih =>
    rw [definitions, List.map_cons, List.forall_mem_cons, List.nodup_cons]
    by_cases hreserved : d.name ∈ Schema.reservedTypes
    · rw [if_pos (List.contains_iff_mem.mpr hreserved)]
      exact iff_of_false (fail_ne_ok _ _) (fun h => absurd hreserved h.1.1.1.1)
    rw [if_neg (mt List.contains_iff_mem.mp hreserved)]
    by_cases hbuiltin : d.name ∈ Schema.builtinScalars
    · rw [if_pos (Schema.isBuiltinScalar_iff.mpr hbuiltin)]
      exact iff_of_false (fail_ne_ok _ _) (fun h => absurd hbuiltin h.1.1.1.2)
    rw [if_neg (mt Schema.isBuiltinScalar_iff.mp hbuiltin)]
    cases hseen : seen.get? d.name with
    | some first =>
      exact iff_of_false (fail_ne_ok _ _) (fun h => absurd (Entries.mem_keys_of_get? hseen) h.1.1.2)
    | none =>
      have hnew : d.name ∉ seen.keys := Entries.get?_eq_none_iff.mp hseen
      simp only [ih, Entries.keys_append, Entries.keys_cons, Entries.keys_nil, List.mem_append,
        List.mem_singleton, not_or]
      constructor
      · rintro ⟨hrest, hdistinct⟩
        refine ⟨⟨⟨⟨hreserved, hbuiltin⟩, hnew⟩, fun n hn => ⟨(hrest n hn).1, (hrest n hn).2.1⟩⟩,
          fun hmem => (hrest _ hmem).2.2 rfl, hdistinct⟩
      · rintro ⟨⟨_, hrest⟩, hhead, hdistinct⟩
        exact ⟨fun n hn => ⟨(hrest n hn).1, (hrest n hn).2, fun heq => hhead (heq ▸ hn)⟩, hdistinct⟩

lemma enums_eq_ok_iff {es : List EnumType} :
    enums es = .ok () ↔ ∀ e ∈ es, e.values ≠ [] := by
  induction es with
  | nil => simp [enums]
  | cons e es ih =>
    rw [enums, List.forall_mem_cons]
    by_cases hempty : e.values = []
    · rw [if_pos (List.isEmpty_iff.mpr hempty)]
      exact iff_of_false (fail_ne_ok _ _) (fun h => absurd hempty h.1)
    · rw [if_neg (mt List.isEmpty_iff.mp hempty), ih]
      exact ⟨fun h => ⟨hempty, h⟩, And.right⟩

/-- By induction on the fields, with the names that were seen before. -/
lemma fields_eq_ok_iff {declared seen : List String} {type : String} {fs : List Field} :
    fields declared type seen fs = .ok () ↔
      (∀ n ∈ fs.map Field.name, n ∉ seen) ∧ (fs.map Field.name).Nodup ∧
        ∀ f ∈ fs, f.type.base ∈ Schema.builtinScalars ∨ f.type.base ∈ declared := by
  induction fs generalizing seen with
  | nil => simp [fields]
  | cons f fs ih =>
    rw [fields, List.map_cons, List.forall_mem_cons, List.nodup_cons, List.forall_mem_cons]
    by_cases hseen : f.name ∈ seen
    · rw [if_pos (List.contains_iff_mem.mpr hseen)]
      exact iff_of_false (fail_ne_ok _ _) (fun h => absurd hseen h.1.1)
    rw [if_neg (mt List.contains_iff_mem.mp hseen)]
    have known : (Schema.isBuiltinScalar f.type.base || declared.contains f.type.base) = true ↔
        f.type.base ∈ Schema.builtinScalars ∨ f.type.base ∈ declared := by
      rw [Bool.or_eq_true, Schema.isBuiltinScalar_iff, List.contains_iff_mem]
    by_cases hbase : f.type.base ∈ Schema.builtinScalars ∨ f.type.base ∈ declared
    · rw [if_pos (known.mpr hbase), ih]
      simp only [List.mem_append, List.mem_singleton, not_or]
      constructor
      · rintro ⟨hrest, hdistinct, hclosed⟩
        exact ⟨⟨hseen, fun n hn => (hrest n hn).1⟩, ⟨fun hmem => (hrest _ hmem).2 rfl, hdistinct⟩,
          hbase, hclosed⟩
      · rintro ⟨⟨_, hrest⟩, ⟨hhead, hdistinct⟩, _, hclosed⟩
        exact ⟨fun n hn => ⟨hrest n hn, fun heq => hhead (heq ▸ hn)⟩, hdistinct, hclosed⟩
    · rw [if_neg (mt known.mp hbase)]
      exact iff_of_false (fail_ne_ok _ _) (fun h => absurd h.2.2.1 hbase)

lemma objects_eq_ok_iff {declared : List String} {os : List ObjectType} :
    objects declared os = .ok () ↔ ∀ o ∈ os, o.fields ≠ [] ∧ (o.fields.map Field.name).Nodup ∧
      ∀ f ∈ o.fields, f.type.base ∈ Schema.builtinScalars ∨ f.type.base ∈ declared := by
  induction os with
  | nil => simp [objects]
  | cons o os ih =>
    rw [objects, List.forall_mem_cons]
    by_cases hempty : o.fields = []
    · rw [if_pos (List.isEmpty_iff.mpr hempty)]
      exact iff_of_false (fail_ne_ok _ _) (fun h => absurd hempty h.1.1)
    rw [if_neg (mt List.isEmpty_iff.mp hempty), ← ih]
    cases hfields : fields declared o.name [] o.fields with
    | error e =>
      refine iff_of_false (by rintro ⟨⟩) fun h => ?_
      rw [fields_eq_ok_iff.mpr ⟨fun _ _ => List.not_mem_nil, h.1.2⟩] at hfields
      cases hfields
    | ok u => exact ⟨fun h => ⟨⟨hempty, (fields_eq_ok_iff.mp hfields).2⟩, h⟩, And.right⟩

end Validity

namespace Schema

theorem check_eq_ok_iff {s : Schema} : s.check = .ok () ↔ s.Valid := by
  constructor
  · intro h
    obtain ⟨_, hdefinitions, h⟩ := bind_eq_ok h
    obtain ⟨_, henums, hobjects⟩ := bind_eq_ok h
    obtain ⟨hfree, hdistinct⟩ := Validity.definitions_eq_ok_iff.mp hdefinitions
    have objects := Validity.objects_eq_ok_iff.mp hobjects
    exact ⟨fun n hn => (hfree n hn).1, hdistinct, Validity.enums_eq_ok_iff.mp henums,
      fun o ho => (objects o ho).1, fun o ho => (objects o ho).2.1, fun o ho => (objects o ho).2.2⟩
  · intro valid
    have hdefinitions : Validity.definitions [] s.definitions = .ok () :=
      Validity.definitions_eq_ok_iff.mpr
        ⟨fun n hn => ⟨valid.free n hn, List.not_mem_nil⟩, valid.distinct⟩
    have hobjects : Validity.objects s.names s.objects = .ok () :=
      Validity.objects_eq_ok_iff.mpr fun o ho =>
        ⟨valid.fields o ho, valid.distinctFields o ho, valid.closed o ho⟩
    rw [check, hdefinitions, Validity.enums_eq_ok_iff.mpr valid.values, hobjects]
    rfl

/-- A valid schema has no two object types of one name. -/
theorem nodup_objects {s : Schema} (valid : s.check = .ok ()) :
    (s.objects.map ObjectType.name).Nodup := by
  refine List.Sublist.nodup ?_ (check_eq_ok_iff.mp valid).distinct
  rw [objects, names]
  induction s.definitions with
  | nil => exact List.Sublist.slnil
  | cons d ds ih =>
    cases d with
    | object o => exact ih.cons_cons o.name
    | enum e => exact ih.cons e.name

lemma check_of_parse {text : String} {s : Schema} (h : Schema.parse text = .ok s) :
    s.check = .ok () := by
  rw [Schema.parse] at h
  obtain ⟨ts, _, h⟩ := bind_eq_ok h
  obtain ⟨s', _, h⟩ := bind_eq_ok h
  obtain ⟨u, hcheck, h⟩ := bind_eq_ok h
  obtain rfl := Except.ok.inj h
  exact hcheck

end Schema

end SchemaStack
