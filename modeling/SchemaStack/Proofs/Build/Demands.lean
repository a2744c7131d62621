import SchemaStack.Proofs.Build.Merge
/-!
# Demands on resources

What every resource of a type must have in one of its properties. A contribution that adds only
resources which meet a demand, and amends the property only as the demand has it, leaves a document
that meets the demand. The type of a resource never changes.
-/

namespace SchemaStack

/-- A resource of this type stands under the ID. -/
def Document.Holds (d : Document) (id : String) (type : ResourceType) : Prop :=
  ∃ r, d.get? id = some r ∧ r.type = type

/-- Asks of all resources of a type what one of their properties is like, if it is there at all. -/
structure Demand where
  type : ResourceType
  property : String
  form : Option Json → Prop

namespace Demand

def MetBy (q : Demand) (r : Resource) : Prop := r.type = q.type → q.form (r.property? q.property)

def KeptBy (q : Demand) (a : Amendment) : Prop := a.property = q.property → q.form (some a.value)

def Met (q : Demand) (d : Document) : Prop := ∀ id r, d.get? id = some r → q.MetBy r

/-- A contribution adds and sets nothing but what meets the demand. -/
structure Fits (q : Demand) (k : Contribution) : Prop where
  entries : ∀ e ∈ k.entries, q.MetBy e.2
  amendments : ∀ a ∈ k.amendments, q.KeptBy a

variable {q : Demand} {d : Document}

lemma MetBy.amended {as : List Amendment} {r : Resource} (met : q.MetBy r)
    (kept : ∀ a ∈ as, q.KeptBy a) (id : String) : q.MetBy (Context.amended as id r) := by
  intro htype
  rw [Context.type_amended] at htype
  rw [Context.property?_amended]
  cases hlast : Context.lastAmendment? as id q.property with
  | none => exact met htype
  | some a =>
    obtain ⟨ha, _, hproperty⟩ := Context.of_lastAmendment? hlast
    exact kept a ha hproperty

lemma Met.apply {k : Contribution} (met : q.Met d) (fits : q.Fits k) :
    q.Met (Context.apply d k) := by
  intro id r hr
  rw [Context.get?_apply] at hr
  obtain ⟨r₀, hr₀, rfl⟩ := Option.map_eq_some_iff.mp hr
  refine MetBy.amended ?_ fits.amendments id
  rcases Option.or_eq_some_iff.mp hr₀ with hr₀ | ⟨_, hr₀⟩
  · exact met id r₀ hr₀
  · exact fits.entries (id, r₀) (Entries.mem_of_get? hr₀)

lemma Met.property? (met : q.Met d) {id : String} (holds : d.Holds id q.type) :
    q.form (d.property? id q.property) := by
  obtain ⟨r, hr, htype⟩ := holds
  rw [Document.property?, hr]
  exact met id r hr htype

end Demand

namespace Document

variable {d : Document} {id : String} {type : ResourceType}

lemma Holds.mem_ids (holds : d.Holds id type) : id ∈ d.ids := by
  obtain ⟨r, hr, _⟩ := holds
  exact Entries.mem_keys_of_get? hr

lemma holds_of_mem_outline (distinct : d.ids.Nodup) (h : (id, type) ∈ d.outline) :
    d.Holds id type := by
  obtain ⟨⟨_, r⟩, he, heq⟩ := List.mem_map.mp h
  obtain ⟨rfl, rfl⟩ := Prod.mk.inj heq
  exact ⟨r, Entries.get?_of_mem distinct he, rfl⟩

end Document

end SchemaStack
