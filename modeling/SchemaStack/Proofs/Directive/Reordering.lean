import SchemaStack.Proofs.Directive.Annotation
import SchemaStack.Proofs.Directive.Comparison
import Mathlib.Data.List.Perm.Basic
/-!
# The order of declarations

The types of a schema can be declared in any order. What a stage asks of them one after the other
comes down to something that does not depend on the order: names that are distinct, indexes that are
taken once, IDs that are new. So a schema in another order is compiled as well, to the same
resources with the same properties, of which only lists of tables and the text of the schema follow
the order. Lines, which change with the order, are for faults only.
-/

namespace SchemaStack

section Permutations

variable {s s' : Schema} (perm : s.definitions.Perm s'.definitions)
include perm

namespace Schema

lemma objects_perm : s.objects.Perm s'.objects := perm.filterMap _

lemma modelTypes_perm : s.modelTypes.Perm s'.modelTypes := (objects_perm perm).filter _

lemma connectionFields_perm : s.connectionFields.Perm s'.connectionFields :=
  (objects_perm perm).flatMap_right _

lemma listFields_perm (type : String) : (s.listFields type).Perm (s'.listFields type) :=
  (connectionFields_perm perm).filter _

lemma Valid.of_perm (valid : s.Valid) : s'.Valid := by
  have hnames : s.names.Perm s'.names := perm.map _
  have henums : s.enums.Perm s'.enums := perm.filterMap _
  have hobjects := objects_perm perm
  obtain ⟨free, distinct, values, fields, distinctFields, closed⟩ := valid
  refine ⟨fun n hn => free n (hnames.mem_iff.mpr hn), hnames.nodup distinct,
    fun e he => values e (henums.mem_iff.mpr he), fun o ho => fields o (hobjects.mem_iff.mpr ho),
    fun o ho => distinctFields o (hobjects.mem_iff.mpr ho), fun o ho f hf => ?_⟩
  exact (closed o (hobjects.mem_iff.mpr ho) f hf).imp_right hnames.mem_iff.mp

end Schema

end Permutations

/-! ## Relations in another order -/

namespace Connection

/-- Fields are resolved in order, but what is asked of them together is only that no index is taken
twice. -/
lemma relationsFrom_eq_ok_iff {a : Artifacts} {owners : List ((String × String) × String)}
    {fs : List (ObjectType × Field)} {rs : List Relation} :
    relationsFrom a owners fs = .ok rs ↔
      List.Forall₂ (fun x r => resolve a x.1 x.2 = .ok r) fs rs ∧
        (rs.filterMap taken?).Nodup ∧ ∀ k ∈ rs.filterMap taken?, k ∉ owners.map Prod.fst := by
  refine ⟨fun h => ⟨forall₂_of_relationsFrom h, nodup_taken_of_relationsFrom h⟩, ?_⟩
  rintro ⟨hall, hnodup, hnew⟩
  induction hall generalizing owners with
  | nil => rfl
  | @cons x r fs rs hx _ ih =>
    rw [relationsFrom, hx, ok_bind]
    cases hindex : r.index with
    | none =>
      have htaken : taken? r = none := by rw [taken?, hindex]; rfl
      rw [List.filterMap_cons_none htaken] at hnodup hnew
      simp only [ih hnodup hnew]
      rfl
    | some index =>
      have htaken : taken? r = some (r.target, index) := by rw [taken?, hindex]; rfl
      rw [List.filterMap_cons_some htaken] at hnodup hnew
      obtain ⟨hhead, hrest⟩ := List.nodup_cons.mp hnodup
      obtain ⟨hfree, hnew⟩ := List.forall_mem_cons.mp hnew
      have hlookup : owners.lookup (r.target, index) = none := by
        refine List.lookup_eq_none_iff.mpr fun e he => bne_iff_ne.mpr fun heq => hfree ?_
        exact heq ▸ List.mem_map_of_mem he
      have hnew' : ∀ k ∈ rs.filterMap taken?,
          k ∉ (owners ++ [((r.target, index), r.parent ++ "." ++ r.field)]).map Prod.fst := by
        intro k hk hmem
        rw [List.map_append, List.mem_append] at hmem
        rcases hmem with hmem | hmem
        · exact hnew k hk hmem
        · obtain rfl : k = (r.target, index) := List.mem_singleton.mp hmem
          exact hhead hk
      simp only [hlookup, ih hrest hnew']
      rfl

section Permutations

variable {s s' : Schema} (perm : s.definitions.Perm s'.definitions)
variable {name : String} {config : BuildConfig} {rs rs' : List Relation}
include perm

/-- In another order of the types the same relations are made out, in another order as well. -/
lemma exists_relations_of_perm (distinct : (s.objects.map ObjectType.name).Nodup)
    (distinct' : (s'.objects.map ObjectType.name).Nodup)
    (h : relations (Model.registered s) = .ok rs) :
    ∃ rs', relations (Model.registered s') = .ok rs' ∧ rs'.Perm rs := by
  have hall' := (forall₂_of_relations h).imp fun x r =>
    resolve_of_subset (Schema.objects_perm perm).subset distinct distinct'
  obtain ⟨rs', hresolved, hperm⟩ :=
    List.perm_comp_forall₂ (Schema.connectionFields_perm perm).symm hall'
  refine ⟨rs', relationsFrom_eq_ok_iff.mpr ⟨?_, ?_, fun _ _ => List.not_mem_nil⟩, hperm⟩
  · rwa [fields_registered]
  · exact (hperm.symm.filterMap taken?).nodup (nodup_taken_of_relationsFrom h).1

end Permutations

end Connection

/-! ## Runs in another order -/

namespace Pipeline

section Permutations

variable {s s' : Schema} (perm : s.definitions.Perm s'.definitions)
include perm

lemma mem_ids_built_of_perm {name : String} {config : BuildConfig} {id : String}
    (h : id ∈ (Model.built name config s).document.ids) :
    id ∈ (Model.built name config s').document.ids := by
  rw [Model.ids_built] at h ⊢
  refine List.mem_append.mpr ((List.mem_append.mp h).imp_right fun hid => ?_)
  obtain ⟨o, ho, hpart⟩ := Model.mem_ids_contribution.mp hid
  exact Model.mem_ids_contribution.mpr ⟨o, (Schema.modelTypes_perm perm).mem_iff.mp ho, hpart⟩

lemma exists_founded_of_perm {name : String} {config : BuildConfig} {connections : Bool}
    (distinct : (s.objects.map ObjectType.name).Nodup)
    (distinct' : (s'.objects.map ObjectType.name).Nodup) {rs : List Relation}
    (founded : Founded name config connections s rs) :
    ∃ rs', Founded name config connections s' rs' := by
  have models : Model.checkAll s'.modelTypes = .ok () := by
    refine Model.checkAll_eq_ok_iff.mpr fun o ho => ?_
    exact Model.checkAll_eq_ok_iff.mp founded.models o
      ((Schema.modelTypes_perm perm).mem_iff.mpr ho)
  have hrelations := founded.relations
  cases connections with
  | false => exact ⟨[], models, rfl, Connection.accepts_nil name config s'⟩
  | true =>
    obtain ⟨rs', hrelations', hperm⟩ :=
      Connection.exists_relations_of_perm perm distinct distinct' hrelations
    obtain ⟨hnodup, hfresh⟩ := (Connection.accepts_contribution_iff
      (Connection.resolved_of_relations distinct hrelations)).mp founded.accepts
    refine ⟨rs', models, hrelations', (Connection.accepts_contribution_iff
      (Connection.resolved_of_relations distinct' hrelations')).mpr ⟨?_, fun r hr hid => ?_⟩⟩
    · exact (hperm.symm.map Connection.resolverId).nodup hnodup
    · exact hfresh r (hperm.mem_iff.mp hr) (mem_ids_built_of_perm perm.symm hid)

variable {c : BuildConfig} {p : Pipeline} {d d' : Document}

lemma exists_compileSchema_of_perm (hp : standard c = .ok p)
    (distinct : (s.objects.map ObjectType.name).Nodup)
    (distinct' : (s'.objects.map ObjectType.name).Nodup) (compiled : p.compileSchema s = .ok d) :
    ∃ d', p.compileSchema s' = .ok d' := by
  have hobjects := Schema.objects_perm perm
  have handled' : p.checkDirectives s = .ok () → p.checkDirectives s' = .ok () := by
    rw [checkDirectives_eq_ok_iff, checkDirectives_eq_ok_iff]
    exact fun handled o ho => handled o (hobjects.mem_iff.mpr ho)
  cases hpool : c.userPool with
  | none =>
    obtain ⟨handled, rs, founded, _⟩ :=
      (compileSchema_eq_ok_iff_of_none hpool hp distinct).mp compiled
    obtain ⟨rs', founded'⟩ := exists_founded_of_perm perm distinct distinct' founded
    exact ⟨_, (compileSchema_eq_ok_iff_of_none hpool hp distinct').mpr
      ⟨handled' handled, rs', founded', rfl⟩⟩
  | some pool =>
    obtain ⟨handled, guardable, rs, founded, _⟩ :=
      (compileSchema_eq_ok_iff_of_some hpool hp distinct).mp compiled
    obtain ⟨rs', founded'⟩ := exists_founded_of_perm perm distinct distinct' founded
    exact ⟨_, (compileSchema_eq_ok_iff_of_some hpool hp distinct').mpr
      ⟨handled' handled, fun o ho => guardable o (hobjects.mem_iff.mpr ho), rs', founded', rfl⟩⟩

/-- The same resources are compiled, in another order. -/
lemma outline_perm (hp : standard c = .ok p) (distinct : (s.objects.map ObjectType.name).Nodup)
    (distinct' : (s'.objects.map ObjectType.name).Nodup) (compiled : p.compileSchema s = .ok d)
    (compiled' : p.compileSchema s' = .ok d') : d.outline.Perm d'.outline := by
  rw [outline_of_compileSchema hp distinct compiled,
    outline_of_compileSchema hp distinct' compiled']
  refine List.Perm.append (List.Perm.append_left _ ?_) ?_
  · exact (Schema.modelTypes_perm perm).flatMap_right _
  · exact (Schema.connectionFields_perm perm).map _

end Permutations

end Pipeline

/-- Documents with the same resources, which have the same properties but for the text of the schema
and for the order of what tables list. -/
structure Document.Reorders (d d' : Document) : Prop where
  distinct : d.ids.Nodup
  outline : d.outline.Perm d'.outline
  kept : ∀ id key, ¬ (id = Api.schemaId ∧ key = "Definition") →
    ¬ ((id, .table) ∈ d.outline ∧ key ∈ Indexing.listKeys) →
      d'.property? id key = d.property? id key
  listed : ∀ id, (id, .table) ∈ d.outline → ∀ key ∈ Indexing.listKeys,
    ∃ vs vs', d.Lists id key vs ∧ d'.Lists id key vs' ∧ vs.Perm vs'

namespace Pipeline

variable {c : BuildConfig} {p : Pipeline} {s s' : Schema} {d d' : Document}

lemma reorders_of_perm (perm : s.definitions.Perm s'.definitions) (hp : standard c = .ok p)
    (distinct : (s.objects.map ObjectType.name).Nodup)
    (distinct' : (s'.objects.map ObjectType.name).Nodup) (compiled : p.compileSchema s = .ok d)
    (compiled' : p.compileSchema s' = .ok d') : Document.Reorders d d' := by
  have houtline := outline_perm perm hp distinct distinct' compiled compiled'
  have included := (Schema.objects_perm perm).subset
  obtain ⟨rs, assembled⟩ := assembled_of_compileSchema hp distinct compiled
  obtain ⟨rs', assembled'⟩ := assembled_of_compileSchema hp distinct' compiled'
  refine ⟨nodup_ids_of_compileSchema hp distinct compiled, houtline,
    fun id key notText notList => ?_, fun id htable key hkey => ?_⟩
  · by_cases hid : id ∈ d.ids
    · refine assembled.property?_eq_of_subset included distinct distinct' assembled' hid
        fun rewritten => ?_
      obtain ⟨hkey, o, ho, rfl⟩ := rewritten.eq_or_mem_listKeys.resolve_left notText
      have htable := (indexed_of_compileSchema hp distinct' compiled' ho).table
      exact notList ⟨houtline.mem_iff.mpr htable, hkey⟩
    · have hid' : id ∉ d'.ids := by
        rw [← Document.map_fst_outline] at hid ⊢
        exact mt (houtline.map Prod.fst).mem_iff.mpr hid
      rw [Document.property?, Document.property?, Document.get?, Document.get?,
        Entries.get?_eq_none_iff.mpr hid, Entries.get?_eq_none_iff.mpr hid']
  · obtain ⟨o, ho, rfl⟩ := exists_of_table hp distinct compiled htable
    obtain ⟨throughput, hlists⟩ :=
      exists_lists_of_subset hp included distinct distinct' compiled compiled' ho
    exact ⟨_, _, (hlists key hkey).1, (hlists key hkey).2,
      Indexing.listedFor_perm throughput key (Schema.listFields_perm perm o.name)⟩

/-- The schema is valid and is compiled to the document. -/
def Compiles (p : Pipeline) (s : Schema) (d : Document) : Prop :=
  s.check = .ok () ∧ p.compileSchema s = .ok d

lemma compiles_unplaced_iff (hp : standard c = .ok p) :
    p.Compiles s.unplaced d ↔ p.Compiles s d := by
  have hvalid : s.unplaced.check = .ok () ↔ s.check = .ok () := by
    rw [Schema.check_eq_ok_iff, Schema.check_eq_ok_iff]
    exact Schema.valid_annotate_iff
  rw [Compiles, Compiles, hvalid]
  exact and_congr_right fun valid => compileSchema_unplaced_iff hp (Schema.nodup_objects valid)

lemma Compiles.exists_of_perm (hp : standard c = .ok p) (perm : s.definitions.Perm s'.definitions)
    (h : p.Compiles s d) : ∃ d', p.Compiles s' d' := by
  obtain ⟨valid, compiled⟩ := h
  have valid' : s'.check = .ok () :=
    Schema.check_eq_ok_iff.mpr ((Schema.check_eq_ok_iff.mp valid).of_perm perm)
  obtain ⟨d', compiled'⟩ := exists_compileSchema_of_perm perm hp (Schema.nodup_objects valid)
    (Schema.nodup_objects valid') compiled
  exact ⟨d', valid', compiled'⟩

/-- The order of declarations does not change what a schema means: with its definitions in another
order, on whatever lines, it is accepted if it was and refused if it was, and documents differ only
in the text of the schema and in the order of resources, of attributes and of indexes. -/
theorem compiles_iff_and_reorders (hp : standard c = .ok p)
    (perm : s.unplaced.definitions.Perm s'.unplaced.definitions) :
    ((∃ d, p.Compiles s d) ↔ ∃ d', p.Compiles s' d') ∧
      ∀ d d', p.Compiles s d → p.Compiles s' d' → Document.Reorders d d' := by
  simp only [← compiles_unplaced_iff (s := s) hp, ← compiles_unplaced_iff (s := s') hp]
  refine ⟨⟨?_, ?_⟩, ?_⟩
  · rintro ⟨d, h⟩
    exact h.exists_of_perm hp perm
  · rintro ⟨d', h⟩
    exact h.exists_of_perm hp perm.symm
  · rintro d d' ⟨valid, compiled⟩ ⟨valid', compiled'⟩
    exact reorders_of_perm perm hp (Schema.nodup_objects valid) (Schema.nodup_objects valid')
      compiled compiled'

/-- Posts are listed in the opposite order when their authors and tags are declared in it. -/
theorem compiles_iff_and_reorders_listing :
    ∃ s d d', Schema.parse listingText = .ok s ∧ listingPipeline.Compiles s d ∧
      listingPipeline.Compiles ⟨s.definitions.reverse⟩ d' ∧ d.ids ≠ d'.ids ∧
      Document.Reorders d d' := by
  have hp : standard listingConfig = .ok listingPipeline := rfl
  have heval : (Schema.parse listingText).toOption.any (fun s =>
      (listingPipeline.compileSchema s).toOption.any fun d =>
        (listingPipeline.compileSchema ⟨s.definitions.reverse⟩).toOption.any fun d' =>
          d.ids != d'.ids) = true := by
    decide +kernel
  obtain ⟨s, hparse, hs⟩ := exists_of_any heval
  obtain ⟨d, compiled, hd⟩ := exists_of_any hs
  obtain ⟨d', compiled', hids⟩ := exists_of_any hd
  have perm : s.unplaced.definitions.Perm (Schema.unplaced ⟨s.definitions.reverse⟩).definitions :=
    (List.reverse_perm s.definitions).symm.map _
  have valid := Schema.check_of_parse hparse
  obtain ⟨accepts, reorders⟩ := compiles_iff_and_reorders hp perm
  obtain ⟨_, valid', _⟩ := accepts.mp ⟨d, valid, compiled⟩
  exact ⟨s, d, d', hparse, ⟨valid, compiled⟩, ⟨valid', compiled'⟩, bne_iff_ne.mp hids,
    reorders d d' ⟨valid, compiled⟩ ⟨valid', compiled'⟩⟩

end Pipeline

end SchemaStack
