import SchemaStack.Proofs.Filesystem.Replacement
import SchemaStack.Proofs.Json.Values
/-!
# Reading back what has been written

A document is the same after it has been written as a JSON value and read again. So parameters and
templates come back from their files as they were put there, order included, if their values can be
stored as JSON texts.
-/

namespace SchemaStack

open JsonText (maxDepth)
open Json (Storable Integral)

/-! ## Documents as JSON values -/

lemma ResourceType.ofTag?_tag (t : ResourceType) : ofTag? t.tag = some t := by
  cases t <;> rfl

/-- What is known of a resource is all there is in its JSON value. -/
lemma Resource.ofJson?_toJson (r : Resource) : ofJson? r.toJson = some r := by
  have htype : Entries.get? [("Type", Json.string r.type.tag), ("Properties", .object r.properties)]
      "Type" = some (.string r.type.tag) := rfl
  have hproperties : Entries.get? [("Type", Json.string r.type.tag),
      ("Properties", .object r.properties)] "Properties" = some (.object r.properties) := rfl
  rw [toJson, ofJson?, htype, hproperties]
  simp [typeOfJson?, ResourceType.ofTag?_tag, Json.object?]

namespace Document

lemma resourcesOfMembers?_toJson (es : Entries Resource) :
    resourcesOfMembers? (es.map fun e => (e.1, e.2.toJson)) = some es := by
  induction es with
  | nil => rfl
  | cons e es ih =>
    rw [List.map_cons, resourcesOfMembers?, Resource.ofJson?_toJson, ih]
    rfl

theorem ofJson?_toJson (d : Document) : ofJson? d.toJson = some d := by
  have hversion : Entries.get? [("AWSTemplateFormatVersion", Json.string d.formatVersion),
      ("Resources", .object (d.resources.map fun e => (e.1, e.2.toJson)))]
      "AWSTemplateFormatVersion" = some (.string d.formatVersion) := rfl
  have hresources : Entries.get? [("AWSTemplateFormatVersion", Json.string d.formatVersion),
      ("Resources", .object (d.resources.map fun e => (e.1, e.2.toJson)))]
      "Resources" = some (.object (d.resources.map fun e => (e.1, e.2.toJson))) := rfl
  rw [toJson, ofJson?, hversion, hresources]
  simp [Json.string?, resourcesOfJson?, Json.object?, resourcesOfMembers?_toJson]

end Document

namespace Filesystem

variable {fs : Filesystem} {p : Path}

/-! ## Files -/

lemma loadParameters_of_readText {parameters : Entries Json}
    (h : fs.readText p = .ok (Json.object parameters).pretty)
    (storable : Storable maxDepth (.object parameters)) : fs.loadParameters p = parameters := by
  rw [loadParameters, h, Except.toOption, Option.bind_some, Json.parse?_pretty storable]
  rfl

/-- Parameters that have been read can be stored again. A file that cannot be read gives none. -/
lemma storable_loadParameters (whole : Integral (.object (fs.loadParameters p))) :
    Storable maxDepth (.object (fs.loadParameters p)) := by
  rw [loadParameters] at whole ⊢
  cases hread : ((fs.readText p).toOption.bind Json.parse?).bind Json.object? with
  | none => exact .object List.nodup_nil (List.forall_mem_nil _)
  | some parameters =>
    rw [hread] at whole
    obtain ⟨j, hj, hobject⟩ := Option.bind_eq_some_iff.mp hread
    obtain ⟨text, -, hparse⟩ := Option.bind_eq_some_iff.mp hj
    obtain ⟨t, -, hmeaning⟩ := Option.bind_eq_some_iff.mp hparse
    cases j with
    | object members =>
      obtain rfl := Option.some.inj hobject
      exact Json.storable_of_json? hmeaning whole
    | _ => cases hobject

lemma readJson_of_readText {d : Document} (h : fs.readText p = .ok d.template)
    (storable : Storable maxDepth d.toJson) : fs.readJson p = .ok d.toJson := by
  have hparse : Json.parse? d.template = some d.toJson := Json.parse?_pretty storable
  rw [readJson, h]
  simp only [hparse]

/-- A template that is read back is the document that it was written for. -/
lemma readTemplate_of_readText {d : Document} (h : fs.readText p = .ok d.template)
    (storable : Storable maxDepth d.toJson) : fs.readTemplate p = .ok d := by
  rw [readTemplate, readJson_of_readText h storable, ok_bind, Document.ofJson?_toJson]

/-- Parameters and documents come back from their files as they were written: the same keys in the
same order at every level, and the same values. -/
theorem read_written (fs : Filesystem) (p : Path) :
    (∀ parameters fs', Storable maxDepth (.object parameters) →
      fs.saveParameters p parameters = (.ok (), fs') → fs'.loadParameters p = parameters) ∧
    ∀ (d : Document) fs', Storable maxDepth d.toJson →
      fs.writeAtomic p d.template = (.ok (), fs') → fs'.readTemplate p = .ok d := by
  refine ⟨fun parameters fs' storable h => ?_, fun d fs' storable h => ?_⟩
  · exact loadParameters_of_readText (settled_writeAtomic h).readText storable
  · exact readTemplate_of_readText (settled_writeAtomic h).readText storable

/-- Keys and strings of every kind, numbers at both ends of their range, and empty containers. -/
def oddities : Entries Json :=
  [("say \"hi\" \\ there", .string "tab\tbell\x07line\nπ😀\x7f"),
   ("", .object [("least", .number (.whole (-9223372036854775808))),
     ("list", .array [.number (.whole 18446744073709551615), .null, .bool true, .array [],
       .object []])])]

lemma storable_oddities (depth : Nat) : Storable (depth + 4) (.object oddities) := by
  have nothing : ∀ v ∈ ([] : List Json), Storable depth v := List.forall_mem_nil _
  have list : Storable (depth + 2) (.array
      [.number (.whole 18446744073709551615), .null, .bool true, .array [], .object []]) := by
    refine .array ?_
    simp only [List.forall_mem_cons]
    exact ⟨.number _ ⟨by decide, by decide⟩, .null _, .bool _ _, .array nothing,
      .object List.nodup_nil (List.forall_mem_nil _), List.forall_mem_nil _⟩
  have inner : Storable (depth + 3) (.object [("least", .number (.whole (-9223372036854775808))),
      ("list", .array [.number (.whole 18446744073709551615), .null, .bool true, .array [],
        .object []])]) := by
    refine .object (by decide) ?_
    simp only [List.forall_mem_cons]
    exact ⟨.number _ ⟨by decide, by decide⟩, list, List.forall_mem_nil _⟩
  refine .object (by decide) ?_
  simp only [oddities, List.forall_mem_cons]
  exact ⟨.string _ _, inner, List.forall_mem_nil _⟩

def oddDocument : Document :=
  ⟨"é\n", [("Table \"1\"", ⟨.table, oddities⟩), ("", ⟨.role, []⟩)]⟩

lemma storable_oddDocument : Storable maxDepth oddDocument.toJson := by
  have table : Storable 125 (Resource.toJson ⟨.table, oddities⟩) := by
    refine .object (by decide) ?_
    simp only [List.forall_mem_cons]
    exact ⟨.string _ _, storable_oddities 120, List.forall_mem_nil _⟩
  have role : Storable 125 (Resource.toJson ⟨.role, []⟩) := by
    refine .object (by decide) ?_
    simp only [List.forall_mem_cons]
    exact ⟨.string _ _, .object List.nodup_nil (List.forall_mem_nil _), List.forall_mem_nil _⟩
  have resources : Storable 126
      (.object (oddDocument.resources.map fun e => (e.1, e.2.toJson))) := by
    refine .object (by decide) ?_
    simp only [oddDocument, List.map_cons, List.map_nil, List.forall_mem_cons]
    exact ⟨table, role, List.forall_mem_nil _⟩
  refine .object (by decide) ?_
  simp only [List.forall_mem_cons]
  exact ⟨.string _ _, resources, List.forall_mem_nil _⟩

theorem read_written_oddities :
    let fs : Filesystem := ⟨[(["api"], .directory)], []⟩
    (fs.saveParameters ⟨"api/odd.json"⟩ oddities).1 = .ok () ∧
      (fs.saveParameters ⟨"api/odd.json"⟩ oddities).2.loadParameters ⟨"api/odd.json"⟩ =
        oddities ∧
      (fs.writeAtomic ⟨"new/odd.json"⟩ oddDocument.template).1 = .ok () ∧
      (fs.writeAtomic ⟨"new/odd.json"⟩ oddDocument.template).2.readTemplate
        ⟨"new/odd.json"⟩ = .ok oddDocument := by
  intro fs
  have hsaved : (fs.saveParameters ⟨"api/odd.json"⟩ oddities).1 = .ok () := by decide +kernel
  have hput : (fs.writeAtomic ⟨"new/odd.json"⟩ oddDocument.template).1 = .ok () := by
    decide +kernel
  refine ⟨hsaved, ?_, hput, ?_⟩
  · exact (read_written fs ⟨"api/odd.json"⟩).1 _ _ (storable_oddities 123) (Prod.ext hsaved rfl)
  · exact (read_written fs ⟨"new/odd.json"⟩).2 _ _ storable_oddDocument (Prod.ext hput rfl)

end Filesystem

end SchemaStack
