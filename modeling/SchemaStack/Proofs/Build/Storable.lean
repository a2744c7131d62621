import SchemaStack.Build.Pipeline
import SchemaStack.Document.Template
import SchemaStack.Proofs.Build.History
import SchemaStack.Proofs.Json.Values
/-!
# Documents that can be stored

A document comes back from its template if its resources have each property once, with a value that
can be stored. A build keeps this as long as its stages contribute nothing else, which they may take
from what the document has already.
-/

namespace SchemaStack

open JsonText (maxDepth)

namespace Json

variable {depth : Nat}

/-- What can be stored with some levels can be stored with more. -/
lemma Storable.mono {depth' : Nat} {j : Json} (h : Storable depth j) (hle : depth ≤ depth') :
    Storable depth' j := by
  induction h generalizing depth' with
  | null depth => exact .null _
  | bool depth b => exact .bool _ b
  | number depth exact => exact .number _ exact
  | string depth s => exact .string _ s
  | array storable parts =>
    obtain ⟨n, rfl⟩ := Nat.exists_eq_add_of_le' (Nat.le_of_add_left_le hle)
    exact .array fun v hv => parts v hv (by omega)
  | object distinct storable parts =>
    obtain ⟨n, rfl⟩ := Nat.exists_eq_add_of_le' (Nat.le_of_add_left_le hle)
    exact .object distinct fun m hm => parts m hm (by omega)

@[simp] lemma storable_string (s : String) : Storable depth (.string s) := .string depth s

@[simp] lemma storable_object_iff {members : List (String × Json)} :
    Storable (depth + 1) (.object members) ↔
      (Entries.keys members).Nodup ∧ ∀ m ∈ members, Storable depth m.2 := by
  refine ⟨fun h => ?_, fun h => .object h.1 h.2⟩
  cases h with
  | object distinct parts => exact ⟨distinct, parts⟩

end Json

/-- How deep the value of a property may nest. The throughput of a table is repeated inside the
indexes of that table, which are a property as well. -/
def roomOf (property : String) : Nat := if property = "ProvisionedThroughput" then 8 else 16

structure Resource.Storable (r : Resource) : Prop where
  distinct : (Entries.keys r.properties).Nodup
  values : ∀ m ∈ r.properties, Json.Storable (roomOf m.1) m.2

def Amendment.Storable (a : Amendment) : Prop := Json.Storable (roomOf a.property) a.value

structure Contribution.Storable (k : Contribution) : Prop where
  entries : ∀ e ∈ k.entries, e.2.Storable
  amendments : ∀ a ∈ k.amendments, a.Storable

def Document.Storable (d : Document) : Prop := ∀ e ∈ d.resources, e.2.Storable

lemma roomOf_le (property : String) : roomOf property ≤ 16 := by
  rw [roomOf]
  split <;> omega

namespace Resource.Storable

variable {r : Resource}

lemma set (h : r.Storable) {a : Amendment} (ha : a.Storable) :
    (r.set a.property a.value).Storable where
  distinct := Entries.nodup_insert h.distinct _ _
  values := by
    intro m hm
    rcases Entries.mem_of_mem_insert hm with hm | rfl
    · exact h.values m hm
    · exact ha

/-- A resource has two levels above its properties, and no property has more than sixteen. -/
lemma toJson {depth : Nat} (h : r.Storable) : Json.Storable (depth + 18) r.toJson := by
  have properties : Json.Storable (depth + 17) (.object r.properties) := .object h.distinct
    fun m hm => (h.values m hm).mono ((roomOf_le m.1).trans (Nat.le_add_left _ _))
  refine .object (by simp) ?_
  simp only [List.forall_mem_cons]
  exact ⟨.string _ _, properties, List.forall_mem_nil _⟩

end Resource.Storable

namespace Document.Storable

variable {d : Document}

lemma property? (h : d.Storable) {id key : String} {v : Json} (hv : d.property? id key = some v) :
    Json.Storable (roomOf key) v := by
  obtain ⟨r, hr, hv⟩ := Option.bind_eq_some_iff.mp hv
  exact (h (id, r) (Entries.mem_of_get? hr)).values (key, v) (Entries.mem_of_get? hv)

lemma amend (h : d.Storable) {a : Amendment} (ha : a.Storable) : (Context.amend d a).Storable := by
  rintro ⟨id, r⟩ he
  obtain ⟨r₀, hr₀, rfl | rfl⟩ := Entries.exists_of_mem_modify he
  · exact h (id, r) hr₀
  · exact (h (id, r₀) hr₀).set ha

lemma foldl_amend (h : d.Storable) {as : List Amendment} (has : ∀ a ∈ as, a.Storable) :
    (as.foldl Context.amend d).Storable := by
  induction as generalizing d with
  | nil => exact h
  | cons a as ih =>
    obtain ⟨ha, has⟩ := List.forall_mem_cons.mp has
    exact ih (h.amend ha) has

lemma apply (h : d.Storable) {k : Contribution} (hk : k.Storable) :
    (Context.apply d k).Storable := by
  have extended : ({ d with resources := d.resources ++ k.entries } : Document).Storable :=
    fun e he => (List.mem_append.mp he).elim (h e) (hk.entries e)
  exact extended.foldl_amend hk.amendments

/-- The template of a document can be read again. -/
theorem toJson (h : d.Storable) (distinct : d.ids.Nodup) : Json.Storable maxDepth d.toJson := by
  have resources : ∀ m ∈ d.resources.map fun e => (e.1, e.2.toJson), Json.Storable 125 m.2 := by
    intro m hm
    obtain ⟨e, he, rfl⟩ := List.mem_map.mp hm
    exact (h e he).toJson
  have keys : (Entries.keys (d.resources.map fun e => (e.1, e.2.toJson))).Nodup := by
    rwa [Entries.keys, List.map_map]
  refine .object (by simp) ?_
  simp only [List.forall_mem_cons]
  exact ⟨.string _ _, .object keys resources, List.forall_mem_nil _⟩

end Document.Storable

namespace Pipeline

/-- To a document that can be stored, the stage contributes what can be stored. -/
def Storing (st : Stage) : Prop :=
  ∀ c a k, c.document.Storable → st.contribute c = .ok (a, k) → k.Storable

variable {c c' : Context} {st : Stage} {ss : List Stage}

lemma Storing.step (storing : Storing st) (storable : c.document.Storable)
    (h : step c st = .ok c') : c'.document.Storable := by
  obtain ⟨a, k, hk, _, rfl⟩ := exists_of_step h
  exact storable.apply (storing c a k storable hk)

end Pipeline

end SchemaStack
