import SchemaStack.Document.Classification
import SchemaStack.Document.Template
import SchemaStack.Proofs.Build.Merge
import Mathlib.Data.List.Perm.Basic
/-!
# Resources by type, in documents and in templates

A scan of the JSON value of a document for the tag of a type finds the IDs that the document has of
that type. The types divide the IDs of a document, and its summary counts the classes that are not
empty.
-/

namespace SchemaStack

/-! ## Scanning a template -/

/-- A scan for the tag of a type finds what the document has of that type, in order, and a scan
for any other tag finds nothing. -/
structure Json.Mirrors (template : Json) (d : Document) : Prop where
  known : ∀ t : ResourceType, template.idsOfTag t.tag = d.idsOfType t
  unknown : ∀ tag, (∀ t : ResourceType, t.tag ≠ tag) → template.idsOfTag tag = []

lemma ResourceType.tag_injective : Function.Injective tag := by
  intro t t' h
  cases t <;> cases t' <;> first | rfl | exact absurd h (by decide)

namespace Document

lemma get?_type_toJson (r : Resource) :
    (r.toJson.get? "Type").bind Json.string? = some r.type.tag := rfl

/-- What a scan finds in the JSON value of a document. -/
lemma idsOfTag_toJson (d : Document) (tag : String) :
    d.toJson.idsOfTag tag =
      (d.resources.filter fun e => e.2.type.tag == tag).map Prod.fst := by
  have hresources : (d.toJson.get? "Resources").bind Json.object? =
      some (d.resources.map fun e => (e.1, e.2.toJson)) := rfl
  rw [Json.idsOfTag, hresources]
  dsimp only
  rw [List.filter_map, List.map_map]
  simp only [Function.comp_def, get?_type_toJson, Option.some_beq_some]

theorem mirrors_toJson (d : Document) : d.toJson.Mirrors d where
  known := by
    intro t
    have same : ∀ t' : ResourceType, (t'.tag == t.tag) = (t' == t) := fun t' => by
      rw [Bool.eq_iff_iff, beq_iff_eq, beq_iff_eq, ResourceType.tag_injective.eq_iff]
    rw [idsOfTag_toJson, idsOfType]
    simp only [same]
  unknown := by
    intro tag other
    rw [idsOfTag_toJson, List.map_eq_nil_iff, List.filter_eq_nil_iff]
    intro e _ htag
    exact other e.2.type (beq_iff_eq.mp htag)

/-! ## What an outline tells -/

variable {d d' : Document}

/-- The types of the resources, in order. -/
def types (d : Document) : List ResourceType := d.outline.map Prod.snd

lemma types_eq (d : Document) : d.types = d.resources.map fun e => e.2.type := by
  rw [types, outline, outlineOf, List.map_map]
  rfl

lemma summary_eq (d : Document) :
    d.summary = d.types.eraseDups.map fun t => (t, d.types.count t) := by
  rw [summary, types_eq]

lemma size_of_outline (h : d.outline = d'.outline) : d.size = d'.size := by
  have hlength := congrArg List.length h
  rwa [outline, outline, outlineOf, outlineOf, List.length_map, List.length_map] at hlength

lemma summary_of_outline (h : d.outline = d'.outline) : d.summary = d'.summary := by
  rw [summary_eq, summary_eq, types, types, h]

/-! ## Classes -/

lemma count_types (d : Document) (t : ResourceType) : d.types.count t = (d.idsOfType t).length := by
  rw [types_eq, List.count_eq_length_filter, List.filter_map, List.length_map, idsOfType,
    List.length_map]
  rfl

lemma mem_summary {t : ResourceType} {n : Nat} :
    (t, n) ∈ d.summary ↔ n = (d.idsOfType t).length ∧ n ≠ 0 := by
  have hmem : (t, n) ∈ d.summary ↔ t ∈ d.types ∧ d.types.count t = n := by
    rw [summary_eq]
    simp only [List.mem_map, List.mem_eraseDups, Prod.mk.injEq]
    constructor
    · rintro ⟨t, ht, rfl, rfl⟩
      exact ⟨ht, rfl⟩
    · rintro ⟨ht, rfl⟩
      exact ⟨t, ht, rfl, rfl⟩
  rw [hmem, ← List.count_pos_iff, count_types]
  omega

end Document

end SchemaStack
