import SchemaStack.Proofs.Directive.Indexing
import SchemaStack.Proofs.Directive.ResourceList
/-!
# Key attributes of tables

The name of a resolver and that of a key attribute are put together from the same type and field,
but the key begins with a small letter. Names of resolvers are distinct in a document, and so are
names of indexes on a table; keys are not looked at. A table declares each attribute once exactly
when no two fields that list its items have names that only the case of their first letters tells
apart.
-/

namespace SchemaStack

namespace Text

lemma mapFirst_append (f : Char → Char) {cs : List Char} (h : cs ≠ []) (ds : List Char) :
    mapFirst f (cs ++ ds) = mapFirst f cs ++ ds := by
  cases cs with
  | nil => exact absurd rfl h
  | cons c cs => rfl

lemma lowerFirst_append {a : String} (h : a.toList ≠ []) (b : String) :
    lowerFirst (a ++ b) = lowerFirst a ++ b := by
  rw [lowerFirst, lowerFirst, String.toList_append, mapFirst_append _ h, String.ofList_append,
    String.ofList_toList]

end Text

namespace Indexing

/-- The name of a field behind that of its type, as its resolver is called. -/
def fullName (x : ObjectType × Field) : String := x.1.name ++ Text.upperFirst x.2.name

/-- Names that are told apart by the case of their first letters and by nothing else. -/
def Confusable (a b : String) : Prop := a ≠ b ∧ Text.lowerFirst a = Text.lowerFirst b

instance (a b : String) : Decidable (Confusable a b) := inferInstanceAs (Decidable (_ ∧ _))

lemma keyName_eq {x : ObjectType × Field} (h : x.1.name.toList ≠ []) :
    keyName x = Text.lowerFirst (fullName x) ++ "Id" := by
  rw [keyName, fullName, Text.lowerFirst_append h]

lemma keyName_eq_iff {x y : ObjectType × Field} (hx : x.1.name.toList ≠ [])
    (hy : y.1.name.toList ≠ []) :
    keyName x = keyName y ↔ Text.lowerFirst (fullName x) = Text.lowerFirst (fullName y) := by
  rw [keyName_eq hx, keyName_eq hy, String.append_left_inj]

/-- No key is called like the ID of an item. -/
lemma id_ne_keyName (x : ObjectType × Field) : "id" ≠ keyName x := by
  rw [keyName]
  exact (append_ne_of_ending (by decide) _).symm

/-- Keys are distinct where full names are and no two of these are confusable. -/
lemma nodup_keyName_iff {xs : List (ObjectType × Field)} (named : ∀ x ∈ xs, x.1.name.toList ≠ [])
    (distinct : (xs.map fullName).Nodup) :
    (xs.map keyName).Nodup ↔ ∀ x ∈ xs, ∀ y ∈ xs, ¬ Confusable (fullName x) (fullName y) := by
  rw [List.nodup_map_iff_inj_on distinct.of_map]
  refine forall₂_congr fun x hx => forall₂_congr fun y hy => ?_
  rw [keyName_eq_iff (named x hx) (named y hy), Confusable]
  constructor
  · rintro same ⟨hne, heq⟩
    exact hne (congrArg fullName (same heq))
  · intro apart heq
    by_contra hne
    exact apart ⟨fun hname => hne (List.inj_on_of_nodup_map distinct hx hy hname), heq⟩

end Indexing

namespace Connection

/-- Resolvers of accepted relations have names of their own, and they are called after the
fields. -/
lemma nodup_fullName {name : String} {config : BuildConfig} {s : Schema} {rs : List Relation}
    (resolved : Resolved s rs) (hrs : relations (Model.registered s) = .ok rs)
    (accepts : (Model.built name config s).Accepts (contribution name config s rs)) :
    (s.connectionFields.map Indexing.fullName).Nodup := by
  have distinct := ((accepts_contribution_iff resolved).mp accepts).1
  have hids : rs.map resolverId =
      (s.connectionFields.map Indexing.fullName).map (· ++ "Resolver") := by
    rw [map_resolverId_of_relations hrs, List.map_map]
    rfl
  rw [hids] at distinct
  exact distinct.of_map

end Connection

namespace Pipeline

open Indexing

/-- In a compiled document, the attributes of a table have distinct names exactly when no two fields
that list its items have confusable names. -/
theorem nodup_attributes_iff_of_compile {c : BuildConfig} {p : Pipeline} (hp : standard c = .ok p)
    {text : String} {d : Document} (compiled : p.compile text = .ok d) :
    ∃ s, Schema.parse text = .ok s ∧
      ∀ table, (table, ResourceType.table) ∈ d.outline →
        ∃ o ∈ s.modelTypes, table = o.name ++ "Table" ∧
          ∃ names : List String,
            d.property? table "AttributeDefinitions" = some (.array (names.map stringAttribute)) ∧
              (names.Nodup ↔ ∀ x ∈ s.listFields o.name, ∀ y ∈ s.listFields o.name,
                ¬ Confusable (fullName x) (fullName y)) := by
  obtain ⟨s, hparse, hcompiled, _⟩ := exists_compiled hp compiled
  refine ⟨s, hparse, fun table htable => ?_⟩
  have distinct := Schema.nodup_objects (Schema.check_of_parse hparse)
  obtain ⟨o, ho, rfl⟩ := exists_of_table hp distinct hcompiled htable
  have handled := ((compileSchema_eq_ok_iff hp distinct).mp hcompiled).1
  obtain ⟨rs, founded, _⟩ := built_of_compileSchema hp distinct hcompiled
  have hrelations := relations_of_founded hp handled founded
  have listed : (s.listFields o.name).Sublist s.connectionFields := List.filter_sublist
  have hfull : ((s.listFields o.name).map fullName).Nodup :=
    (listed.map fullName).nodup
      (Connection.nodup_fullName (founded.resolved distinct) hrelations founded.accepts)
  have named : ∀ x ∈ s.listFields o.name, x.1.name.toList ≠ [] := by
    intro x hx
    have hobject := (Schema.mem_connectionFields.mp (listed.subset hx)).1
    obtain ⟨a, as, hname, _⟩ :=
      (Sdl.legible_of_mem_objects (Schema.legible_of_parse hparse).1 hobject).1
    rw [hname]
    exact List.cons_ne_nil a as
  refine ⟨o, ho, rfl, "id" :: (s.listFields o.name).map keyName, ?_, ?_⟩
  · rw [(indexed_of_compileSchema hp distinct hcompiled ho).attributes, List.map_cons, List.map_map]
    rfl
  · rw [List.nodup_cons, nodup_keyName_iff named hfull]
    refine and_iff_right fun hmem => ?_
    obtain ⟨x, _, hx⟩ := List.mem_map.mp hmem
    exact id_ne_keyName x hx.symm

/-- The keys of an author's posts and of a tag's are different. -/
theorem nodup_attributes_iff_of_compile_listing :
    ∃ d, listingPipeline.compile listingText = .ok d ∧ ∃ names : List String,
      d.property? "PostTable" "AttributeDefinitions" =
        some (.array (names.map stringAttribute)) ∧ names.Nodup := by
  have heval : (Schema.parse listingText).toOption.any (fun s =>
      (s.listFields "Post").map fullName = ["AuthorPosts", "TagPosts", "TagDrafts"] ∧
      (listingPipeline.compileSchema s).toOption.any fun d =>
        decide (("PostTable", ResourceType.table) ∈ d.outline)) = true := by
    decide +kernel
  obtain ⟨s, hparse, hs⟩ := exists_of_any heval
  obtain ⟨hfields, hd⟩ := of_decide_eq_true hs
  obtain ⟨d, hcompiled, htable⟩ := exists_of_any hd
  have hcompile : listingPipeline.compile listingText = .ok d :=
    (compile_of_parse hparse).trans hcompiled
  have hp : standard listingConfig = .ok listingPipeline := rfl
  obtain ⟨s', hparse', tables⟩ := nodup_attributes_iff_of_compile hp hcompile
  obtain rfl := Except.ok.inj (hparse.symm.trans hparse')
  obtain ⟨o, _, hname, names, hnames, hnodup⟩ := tables _ (of_decide_eq_true htable)
  have htype : "Post" = o.name := (String.append_left_inj "Table").mp hname
  refine ⟨d, hcompile, names, hnames, hnodup.mpr fun x hx y hy => ?_⟩
  have apart : ∀ a ∈ (s.listFields "Post").map fullName, ∀ b ∈ (s.listFields "Post").map fullName,
      ¬ Confusable a b := by
    rw [hfields]
    decide
  rw [← htype] at hx hy
  exact apart _ (List.mem_map_of_mem hx) _ (List.mem_map_of_mem hy)

/-- Two types whose names differ in the case of the first letter list the items of a third. -/
def casesText : String :=
  "type Blog @model \x7b id: ID! posts: [Post] @connection \x7d\n" ++
    "type blog @model \x7b id: ID! posts: [Post] @connection \x7d\n" ++
    "type Post @model \x7b id: ID! \x7d"

def casesConfig : BuildConfig := { apiName := "blog" }

def casesPipeline : Pipeline := ⟨standardStages casesConfig, rfl⟩

/-- The indexes of both are kept apart, their keys are not. -/
theorem attributes_repeated :
    standard casesConfig = .ok casesPipeline ∧
      ∃ d, casesPipeline.compile casesText = .ok d ∧
        ("PostTable", ResourceType.table) ∈ d.outline ∧
        d.property? "PostTable" "AttributeDefinitions" =
          some (.array (["id", "blogPostsId", "blogPostsId"].map stringAttribute)) ∧
        ¬ ["id", "blogPostsId", "blogPostsId"].Nodup := by
  have hp : standard casesConfig = .ok casesPipeline := rfl
  have heval : (Schema.parse casesText).toOption.any (fun s =>
      (s.modelTypes.map ObjectType.name, (s.listFields "Post").map keyName) =
        (["Blog", "blog", "Post"], ["blogPostsId", "blogPostsId"]) ∧
      (casesPipeline.compileSchema s).toOption.isSome = true) = true := by
    decide +kernel
  obtain ⟨s, hparse, hs⟩ := exists_of_any heval
  obtain ⟨hfields, hok⟩ := of_decide_eq_true hs
  obtain ⟨hnames, hkeys⟩ := Prod.mk.inj hfields
  have distinct := Schema.nodup_objects (Schema.check_of_parse hparse)
  cases hcompiled : casesPipeline.compileSchema s with
  | error e =>
    rw [hcompiled] at hok
    cases hok
  | ok d =>
    have hpost : "Post" ∈ s.modelTypes.map ObjectType.name := by
      rw [hnames]
      decide
    obtain ⟨o, ho, hname⟩ := List.mem_map.mp hpost
    obtain ⟨htable, _, hattributes, _⟩ := indexed_of_compileSchema hp distinct hcompiled ho
    rw [hname] at htable hattributes
    refine ⟨hp, d, (compile_of_parse hparse).trans hcompiled, htable, ?_, by decide⟩
    rw [← hkeys, List.map_cons, List.map_map]
    exact hattributes

end Pipeline

end SchemaStack
