import SchemaStack.Proofs.Build.Merge
/-!
# References between resources

What a value refers to, at any depth, by the two forms that a deployment fills in. A contribution
can only set properties of what was there: a resource of the document that it leaves is one that
it found or brought, with the values of its amendments in the place of others.
-/

namespace SchemaStack

namespace Json

/-- The ID that a member of an object refers to: `{"Fn::GetAtt": [id, ..]}` or `{"Ref": id}`. -/
def memberReference? : String × Json → Option String
  | ("Fn::GetAtt", .array (.string id :: _)) => some id
  | ("Ref", .string id) => some id
  | _ => none

mutual

/-- The IDs that a value refers to, in the order in which they occur. -/
def references : Json → List String
  | .array items => referencesOfItems items
  | .object members => referencesOfMembers members
  | _ => []

def referencesOfItems : List Json → List String
  | [] => []
  | v :: vs => references v ++ referencesOfItems vs

def referencesOfMembers : List (String × Json) → List String
  | [] => []
  | (k, v) :: ms => (memberReference? (k, v)).toList ++ references v ++ referencesOfMembers ms

end

end Json

namespace Json

lemma referencesOfItems_eq (vs : List Json) : referencesOfItems vs = vs.flatMap references := by
  induction vs with
  | nil => rfl
  | cons v vs ih => rw [referencesOfItems, ih, List.flatMap_cons]

lemma references_subset_of_mem {v : Json} {vs : List Json} (h : v ∈ vs) :
    v.references ⊆ (Json.array vs).references := by
  intro id hid
  rw [references, referencesOfItems_eq]
  exact List.mem_flatMap.mpr ⟨v, h, hid⟩

end Json

namespace Resource

/-- The IDs that the properties of a resource refer to. -/
def references (r : Resource) : List String := r.properties.flatMap fun m => m.2.references

lemma mem_references_of_property? {r : Resource} {key : String} {v : Json}
    (h : r.property? key = some v) {id : String} (hid : id ∈ v.references) : id ∈ r.references :=
  List.mem_flatMap.mpr ⟨(key, v), Entries.mem_of_get? h, hid⟩

end Resource

namespace Document

/-- The IDs that the resources of a document refer to. -/
def references (d : Document) : List String := d.resources.flatMap fun e => e.2.references

/-- Whatever a resource refers to is a resource of the document or the region that it is deployed
in. -/
def Closed (d : Document) : Prop := ∀ id ∈ d.references, id ∈ d.ids ∨ id = "AWS::Region"

lemma mem_references_of_property? {d : Document} {id key : String} {v : Json}
    (h : d.property? id key = some v) {x : String} (hx : x ∈ v.references) :
    x ∈ d.references := by
  obtain ⟨r, hr, hv⟩ := Option.bind_eq_some_iff.mp h
  exact List.mem_flatMap.mpr ⟨(id, r), Entries.mem_of_get? hr, r.mem_references_of_property? hv hx⟩

end Document

/-! ## What amendments can do -/

/-- What amendments can make of a resource. -/
structure Revises (as : List Amendment) (r r' : Resource) : Prop where
  type : r'.type = r.type
  property : ∀ m ∈ r'.properties, m ∈ r.properties ∨ ∃ a ∈ as, m = (a.property, a.value)
  untouched : ∀ key, (∀ a ∈ as, a.property ≠ key) → r'.property? key = r.property? key

namespace Revises

lemma refl (as : List Amendment) (r : Resource) : Revises as r r where
  type := rfl
  property := fun _ hm => Or.inl hm
  untouched := fun _ _ => rfl

lemma set (a : Amendment) (r : Resource) : Revises [a] r (r.set a.property a.value) where
  type := rfl
  property := by
    intro m hm
    refine (Entries.mem_of_mem_insert hm).imp_right fun h => ?_
    exact ⟨a, List.mem_cons_self, h⟩
  untouched := by
    intro key untouched
    rw [Context.property?_set, if_neg (untouched a List.mem_cons_self)]

lemma cons {a : Amendment} {as : List Amendment} {r r' r'' : Resource}
    (first : Revises [a] r r') (rest : Revises as r' r'') : Revises (a :: as) r r'' where
  type := rest.type.trans first.type
  property := by
    intro m hm
    rcases rest.property m hm with hm' | ⟨b, hb, rfl⟩
    · refine (first.property m hm').imp_right fun ⟨b, hb, h⟩ => ?_
      exact ⟨b, List.mem_cons.mpr (Or.inl (List.mem_singleton.mp hb)), h⟩
    · exact Or.inr ⟨b, List.mem_cons_of_mem _ hb, rfl⟩
  untouched := by
    intro key untouched
    rw [rest.untouched key fun b hb => untouched b (List.mem_cons_of_mem _ hb)]
    refine first.untouched key fun b hb => untouched b ?_
    exact List.mem_cons.mpr (Or.inl (List.mem_singleton.mp hb))

/-- A revised resource refers to nothing but what it did before and what its amendments bring. -/
lemma references {as : List Amendment} {r r' : Resource} (h : Revises as r r') {id : String}
    (hid : id ∈ r'.references) : id ∈ r.references ∨ ∃ a ∈ as, id ∈ a.value.references := by
  obtain ⟨m, hm, hid⟩ := List.mem_flatMap.mp hid
  rcases h.property m hm with hm | ⟨a, ha, rfl⟩
  · exact Or.inl (List.mem_flatMap.mpr ⟨m, hm, hid⟩)
  · exact Or.inr ⟨a, ha, hid⟩

end Revises

namespace Context

lemma exists_revised_of_mem_foldl_amend {as : List Amendment} {d : Document}
    {e : String × Resource} (h : e ∈ (as.foldl amend d).resources) :
    ∃ r, (e.1, r) ∈ d.resources ∧ Revises as r e.2 := by
  induction as generalizing d with
  | nil => exact ⟨e.2, h, .refl [] e.2⟩
  | cons a as ih =>
    obtain ⟨r', hr', rest⟩ := ih h
    obtain ⟨r, hr, rfl | rfl⟩ := Entries.exists_of_mem_modify hr'
    · exact ⟨r', hr, (Revises.refl [a] r').cons rest⟩
    · exact ⟨r, hr, (Revises.set a r).cons rest⟩

/-- Every resource is one that was there or is contributed, as the amendments revise it. -/
lemma exists_revised_of_mem_apply {d : Document} {k : Contribution} {e : String × Resource}
    (h : e ∈ (apply d k).resources) :
    ∃ r, ((e.1, r) ∈ d.resources ∨ (e.1, r) ∈ k.entries) ∧ Revises k.amendments r e.2 := by
  obtain ⟨r, hr, revises⟩ := exists_revised_of_mem_foldl_amend h
  exact ⟨r, List.mem_append.mp hr, revises⟩

end Context

end SchemaStack
