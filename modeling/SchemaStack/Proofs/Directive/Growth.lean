import SchemaStack.Proofs.Directive.Comparison
/-!
# Schemas that grow

One more definition behind the others adds its resources to the document, those of its model type
in front of the relations. What was there stays in order and as it was, but for the text of the
schema and for the tables that list fields of the new type read: these list more attributes and more
indexes behind those that they had.
-/

namespace SchemaStack

namespace Schema

/-- The schema with one more definition. -/
def snoc (s : Schema) (t : Definition) : Schema := ⟨s.definitions ++ [t]⟩

lemma objects_snoc (s : Schema) (t : Definition) :
    (s.snoc t).objects = s.objects ++ objects ⟨[t]⟩ := List.filterMap_append

/-- A definition that is added takes nothing away. -/
lemma objects_subset_snoc (s : Schema) (t : Definition) : s.objects ⊆ (s.snoc t).objects := by
  rw [objects_snoc]
  exact List.subset_append_left _ _

lemma nodup_objects_of_snoc {s : Schema} {t : Definition}
    (distinct : ((s.snoc t).objects.map ObjectType.name).Nodup) :
    (s.objects.map ObjectType.name).Nodup := by
  rw [objects_snoc, List.map_append] at distinct
  exact distinct.of_append_left

lemma modelTypes_snoc (s : Schema) (t : Definition) :
    (s.snoc t).modelTypes = s.modelTypes ++ modelTypes ⟨[t]⟩ := by
  rw [modelTypes, objects_snoc, List.filter_append]
  rfl

lemma connectionFields_snoc (s : Schema) (t : Definition) :
    (s.snoc t).connectionFields = s.connectionFields ++ connectionFields ⟨[t]⟩ := by
  rw [connectionFields, objects_snoc, List.flatMap_append]
  rfl

lemma listFields_snoc (s : Schema) (t : Definition) (type : String) :
    (s.snoc t).listFields type = s.listFields type ++ listFields ⟨[t]⟩ type := by
  rw [listFields, connectionFields_snoc, List.filter_append]
  rfl

end Schema

/-- Properties that a definition extends: the attributes and the indexes of the tables that its
list fields read. -/
def Definition.Extends (t : Definition) (id key : String) : Prop :=
  key ∈ Indexing.listKeys ∧ ∃ type, Schema.listFields ⟨[t]⟩ type ≠ [] ∧ id = type ++ "Table"

/-- A document once the schema has one more definition. -/
structure Document.Grows (t : Definition) (d d' : Document) : Prop where
  distinct : d'.ids.Nodup
  outline : d.outline.Sublist d'.outline
  kept : ∀ id ∈ d.ids, ∀ key, ¬ (id = Api.schemaId ∧ key = "Definition") → ¬ t.Extends id key →
    d'.property? id key = d.property? id key
  extended : ∀ id ∈ d.ids, ∀ key, t.Extends id key →
    ∃ old new, d.Lists id key old ∧ d'.Lists id key new ∧ old <+: new

namespace Pipeline

variable {c : BuildConfig} {p : Pipeline} {s : Schema} {t : Definition} {d d' : Document}

section Snoc

variable (hp : standard c = .ok p)
variable (distinct : ((s.snoc t).objects.map ObjectType.name).Nodup)
variable (compiled : p.compileSchema s = .ok d) (compiled' : p.compileSchema (s.snoc t) = .ok d')
include hp distinct compiled compiled'

lemma outline_sublist_snoc : d.outline.Sublist d'.outline := by
  rw [outline_of_compileSchema hp (Schema.nodup_objects_of_snoc distinct) compiled,
    outline_of_compileSchema hp distinct compiled', Schema.modelTypes_snoc,
    Schema.connectionFields_snoc, List.flatMap_append, List.map_append]
  refine List.Sublist.append (List.Sublist.append (List.Sublist.refl _) ?_) ?_
  · exact List.sublist_append_left _ _
  · exact List.sublist_append_left _ _

/-- A table that was there lists what it listed and then what the definition calls for. -/
lemma exists_lists_snoc {type : String} (hid : type ++ "Table" ∈ d.ids) :
    ∃ throughput, ∀ key ∈ Indexing.listKeys,
      d.Lists (type ++ "Table") key (Indexing.listedFor throughput key (s.listFields type)) ∧
      d'.Lists (type ++ "Table") key (Indexing.listedFor throughput key
        (s.listFields type ++ Schema.listFields ⟨[t]⟩ type)) := by
  have distinct₀ := Schema.nodup_objects_of_snoc distinct
  obtain ⟨rs, assembled⟩ := assembled_of_compileSchema hp distinct₀ compiled
  obtain ⟨o, ho, rfl⟩ := assembled.mem_modelTypes_of_table distinct₀ hid
  rw [← Schema.listFields_snoc]
  exact exists_lists_of_subset hp (s.objects_subset_snoc t) distinct₀ distinct compiled compiled' ho

end Snoc

/-- Growing a schema is append-only: whatever definition comes last, the resources of the others
keep their order, their types and their properties, but for the text of the schema and for the
lists that the definition extends, of which the old ones are prefixes. -/
theorem grows_of_compileSchema (hp : standard c = .ok p) (valid : (s.snoc t).check = .ok ())
    (compiled : p.compileSchema s = .ok d) (compiled' : p.compileSchema (s.snoc t) = .ok d') :
    Document.Grows t d d' := by
  have distinct' := Schema.nodup_objects valid
  have distinct := Schema.nodup_objects_of_snoc distinct'
  have included := s.objects_subset_snoc t
  obtain ⟨rs, assembled⟩ := assembled_of_compileSchema hp distinct compiled
  obtain ⟨rs', assembled'⟩ := assembled_of_compileSchema hp distinct' compiled'
  refine ⟨nodup_ids_of_compileSchema hp distinct' compiled',
    outline_sublist_snoc hp distinct' compiled compiled', ?kept, ?extended⟩
  case kept =>
    intro id hid key notText unextended
    by_cases rewritten : Connection.Rewritten (s.snoc t) id key
    · obtain ⟨hkey, o, _, rfl⟩ := rewritten.eq_or_mem_listKeys.resolve_left notText
      have hnone : Schema.listFields ⟨[t]⟩ o.name = [] := by
        by_contra hsome
        exact unextended ⟨hkey, o.name, hsome, rfl⟩
      obtain ⟨throughput, hlists⟩ := exists_lists_snoc hp distinct' compiled compiled' hid
      rw [hnone, List.append_nil] at hlists
      exact (hlists key hkey).1.property?_congr (hlists key hkey).2
    · exact assembled.property?_eq_of_subset included distinct distinct' assembled' hid rewritten
  case extended =>
    rintro id hid key ⟨hkey, type, _, rfl⟩
    obtain ⟨throughput, hlists⟩ := exists_lists_snoc hp distinct' compiled compiled' hid
    exact ⟨_, _, (hlists key hkey).1, (hlists key hkey).2,
      Indexing.listedFor_append_isPrefix throughput key _ _⟩

def song : ObjectType where
  name := "Song"
  directives := [⟨"model", [], 1⟩,
    ⟨"auth", [("rules", .list [.object [("allow", .enum "owner")]])], 1⟩]
  fields := [⟨"id", .nonNull (.named "ID"), [], 1⟩]
  line := 1

/-- A type with a list of songs. -/
def collection (name : String) (line : Nat) : ObjectType where
  name := name
  directives := [⟨"model", [], line⟩]
  fields := [⟨"id", .nonNull (.named "ID"), [], line⟩,
    ⟨"songs", .list (.named "Song"), [⟨"connection", [], line⟩], line⟩]
  line := line

def albums : Schema := ⟨[.object song, .object (collection "Album" 2)]⟩

def musicConfig : BuildConfig := { apiName := "music", userPool := some "pool" }

def musicPipeline : Pipeline := ⟨standardStages musicConfig, rfl⟩

theorem grows_of_compileSchema_albums :
    ∃ d d', musicPipeline.compileSchema albums = .ok d ∧
      musicPipeline.compileSchema (albums.snoc (.object (collection "Playlist" 3))) = .ok d' ∧
      Document.Grows (.object (collection "Playlist" 3)) d d' ∧
      Definition.Extends (.object (collection "Playlist" 3)) "SongTable" "GlobalSecondaryIndexes" := by
  have hp : standard musicConfig = .ok musicPipeline := rfl
  have valid : (albums.snoc (.object (collection "Playlist" 3))).check = .ok () := rfl
  have hok : (musicPipeline.compileSchema albums).toOption.any (fun _ => true) = true := by
    decide +kernel
  have hok' : (musicPipeline.compileSchema
      (albums.snoc (.object (collection "Playlist" 3)))).toOption.any (fun _ => true) = true := by
    decide +kernel
  obtain ⟨d, compiled, _⟩ := exists_of_any hok
  obtain ⟨d', compiled', _⟩ := exists_of_any hok'
  refine ⟨d, d', compiled, compiled', grows_of_compileSchema hp valid compiled compiled', ?_⟩
  exact ⟨by simp [Indexing.listKeys], "Song", List.cons_ne_nil _ _, rfl⟩

end Pipeline

end SchemaStack
