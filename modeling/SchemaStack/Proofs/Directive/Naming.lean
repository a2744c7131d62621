import SchemaStack.Directive.Connection
import SchemaStack.Proofs.Build.Merge
import Mathlib.Data.List.Nodup
/-!
# Logical IDs

The IDs of a model type are its name between fixed texts. From an ID of this form the part and the
type can be read back, whatever the name is, and none of them is an ID of the API.
-/

namespace SchemaStack

/-- Texts with endings of which neither ends in the other are different. -/
lemma append_ne_append {s t : String} (h : ¬ s.toList <:+ t.toList) (h' : ¬ t.toList <:+ s.toList)
    (a b : String) : a ++ s ≠ b ++ t := by
  intro heq
  have hlist : a.toList ++ s.toList = b.toList ++ t.toList := by
    rw [← String.toList_append, heq, String.toList_append]
  have hs : s.toList <:+ b.toList ++ t.toList := ⟨a.toList, hlist⟩
  have ht : t.toList <:+ b.toList ++ t.toList := List.suffix_append _ _
  rcases List.suffix_or_suffix_of_suffix hs ht with hst | hts
  · exact h hst
  · exact h' hts

lemma append_ne_of_ending {s t : String} (h : ¬ s.toList <:+ t.toList) (a : String) :
    a ++ s ≠ t := by
  rintro rfl
  exact h ⟨a.toList, String.toList_append.symm⟩

namespace Operation

lemma resolverId_injective {op op' : Operation} {type type' : String}
    (h : op.resolverId type = op'.resolverId type') : op = op' ∧ type = type' := by
  have hfront : op.label ++ type = op'.label ++ type' := by
    simpa only [resolverId, String.append_left_inj] using h
  -- the five labels differ in their first letters
  have hop : op = op' := by
    have hlist := congrArg String.toList hfront
    cases op <;> cases op' <;> first | rfl | simp [label] at hlist
  subst hop
  exact ⟨rfl, (String.append_right_inj _).mp hfront⟩

end Operation

namespace Model

/-- What a model type consists of. -/
inductive Part where
  | table
  | role
  | dataSource
  | resolver (op : Operation)
deriving DecidableEq

namespace Part

/-- The parts in document order. -/
def all : List Part := [.table, .role, .dataSource] ++ Operation.all.map .resolver

def id (type : String) : Part → String
  | .table => type ++ "Table"
  | .role => type ++ "IAMRole"
  | .dataSource => type ++ "DataSource"
  | .resolver op => op.resolverId type

def resource (c : BuildConfig) (type : String) : Part → Resource
  | .table => tableResource c type
  | .role => roleResource c type (type ++ "Table")
  | .dataSource => dataSourceResource type (type ++ "Table") (type ++ "IAMRole")
  | .resolver op => (ofType type).resolverResource op

/-- The end of an ID says of which kind its part is. -/
def ending : Part → String
  | .table => "Table"
  | .role => "IAMRole"
  | .dataSource => "DataSource"
  | .resolver _ => "Resolver"

lemma mem_all (part : Part) : part ∈ all := by
  cases part with
  | table => decide
  | role => decide
  | dataSource => decide
  | resolver op => cases op <;> decide

lemma nodup_all : all.Nodup := by decide

lemma ending_not_suffix : ∀ part ∈ all, ∀ part' ∈ all, part.ending ≠ part'.ending →
    ¬ part.ending.toList <:+ part'.ending.toList := by decide

lemma ending_not_suffix_api : ∀ part ∈ all, ∀ id ∈ [Api.apiId, Api.keyId, Api.schemaId],
    ¬ part.ending.toList <:+ id.toList := by decide

/-- All IDs end like their part, those of resolvers too, which have the operation in front. -/
lemma id_eq_append (type : String) (part : Part) :
    ∃ front, part.id type = front ++ part.ending := by
  cases part with
  | table => exact ⟨type, rfl⟩
  | role => exact ⟨type, rfl⟩
  | dataSource => exact ⟨type, rfl⟩
  | resolver op => exact ⟨op.label ++ type, rfl⟩

lemma id_ne_of_ending {part part' : Part} (h : part.ending ≠ part'.ending)
    (type type' : String) : part.id type ≠ part'.id type' := by
  obtain ⟨a, ha⟩ := id_eq_append type part
  obtain ⟨b, hb⟩ := id_eq_append type' part'
  rw [ha, hb]
  exact append_ne_append (ending_not_suffix _ (mem_all _) _ (mem_all _) h)
    (ending_not_suffix _ (mem_all _) _ (mem_all _) (Ne.symm h)) a b

/-- The part and the type can be read off an ID. -/
theorem id_injective {part part' : Part} {type type' : String}
    (h : part.id type = part'.id type') : part = part' ∧ type = type' := by
  cases part <;> cases part'
  case table.table => exact ⟨rfl, (String.append_left_inj _).mp h⟩
  case role.role => exact ⟨rfl, (String.append_left_inj _).mp h⟩
  case dataSource.dataSource => exact ⟨rfl, (String.append_left_inj _).mp h⟩
  case resolver.resolver op op' =>
    obtain ⟨rfl, htype⟩ := Operation.resolverId_injective h
    exact ⟨rfl, htype⟩
  all_goals exact absurd h (id_ne_of_ending (by simp [ending]) type type')

lemma id_notMem_api (type : String) (part : Part) :
    part.id type ∉ [Api.apiId, Api.keyId, Api.schemaId] := by
  intro hmem
  obtain ⟨front, h⟩ := id_eq_append type part
  exact append_ne_of_ending (ending_not_suffix_api part (mem_all part) _ hmem) front h.symm

end Part

lemma entries_eq (c : BuildConfig) (type : String) :
    entries c type = Part.all.map fun part => (part.id type, part.resource c type) := rfl

lemma keys_entries (c : BuildConfig) (type : String) :
    Entries.keys (entries c type) = Part.all.map fun part => part.id type := rfl

lemma nodup_keys_entries (c : BuildConfig) (type : String) :
    (Entries.keys (entries c type)).Nodup := by
  rw [keys_entries]
  exact Part.nodup_all.map fun a b h => (Part.id_injective h).1

/-- The entries of several model types have IDs of their own where the names differ. -/
lemma nodup_keys_flatMap_entries (c : BuildConfig) {types : List String} (distinct : types.Nodup) :
    (Entries.keys (types.flatMap (entries c))).Nodup := by
  have hkeys : Entries.keys (types.flatMap (entries c)) =
      types.flatMap fun type => Entries.keys (entries c type) := List.map_flatMap
  rw [hkeys, List.nodup_flatMap]
  refine ⟨fun type _ => nodup_keys_entries c type, distinct.imp ?_⟩
  intro type type' hne id hid hid'
  change id ∈ Part.all.map fun part => part.id type at hid
  change id ∈ Part.all.map fun part => part.id type' at hid'
  obtain ⟨part, _, rfl⟩ := List.mem_map.mp hid
  obtain ⟨part', _, h⟩ := List.mem_map.mp hid'
  exact hne (Part.id_injective h).2.symm

end Model

end SchemaStack
