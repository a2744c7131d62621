import SchemaStack.Proofs.Directive.Contents
import SchemaStack.Proofs.Json.Verbatim
import Mathlib.Data.List.Infix
/-!
# Queries of indexes

A list is read by a query that names an index and its key. The name goes into the request as it is,
between quotes and in front of the key, so what a request names need not be what the table has:
quotes and backslashes of the name end or escape the literal, and the mark of the key in it is
replaced with the key. The two agree exactly when the name that the relation was given has nothing
of this kind in it.
-/

namespace SchemaStack

namespace Text

/-! ## Substitution -/

variable {pattern by' cs : List Char} {q : Char → Bool}

lemma replaceFrom_of_not_infix (h : ¬ pattern <:+: cs) : replaceFrom pattern by' 0 cs = cs := by
  induction cs with
  | nil => rfl
  | cons c cs ih =>
    rw [List.infix_cons_iff, not_or] at h
    rw [replaceFrom, if_neg (mt List.isPrefixOf_iff_prefix.mp h.1), ih h.2]

/-- A replacement without characters of a kind adds none. -/
lemma countP_replaceFrom_le (free : by'.countP q = 0) (skip : Nat) (cs : List Char) :
    (replaceFrom pattern by' skip cs).countP q ≤ (cs.drop skip).countP q := by
  induction cs generalizing skip with
  | nil => cases skip <;> exact Nat.zero_le _
  | cons c cs ih =>
    cases skip with
    | succ skip => exact ih skip
    | zero =>
      rw [replaceFrom, List.drop_zero]
      split
      · have hrest : (cs.drop (pattern.length - 1)).countP q ≤ (c :: cs).countP q :=
          ((List.drop_sublist _ cs).trans (List.sublist_cons_self c cs)).countP_le
        rw [List.countP_append, free, Nat.zero_add]
        exact Nat.le_trans (ih _) hrest
      · rw [List.countP_cons, List.countP_cons]
        exact Nat.add_le_add_right (ih 0) _

/-- Where the pattern begins with a character of the kind and occurs, there are fewer of the kind
after it is replaced. -/
lemma countP_replaceFrom_lt (free : by'.countP q = 0) {m : Char} {ms : List Char} (mark : q m = true)
    (h : m :: ms <:+: cs) : (replaceFrom (m :: ms) by' 0 cs).countP q < cs.countP q := by
  induction cs with
  | nil => exact absurd (List.eq_nil_of_infix_nil h) (List.cons_ne_nil m ms)
  | cons c cs ih =>
    rw [replaceFrom]
    by_cases hprefix : m :: ms <+: c :: cs
    · obtain ⟨rfl, _⟩ := List.cons_prefix_cons.mp hprefix
      have hrest : (cs.drop ms.length).countP q ≤ cs.countP q := (List.drop_sublist _ cs).countP_le
      rw [if_pos (List.isPrefixOf_iff_prefix.mpr hprefix), List.countP_append, free, Nat.zero_add,
        List.countP_cons_of_pos mark]
      exact Nat.lt_succ_of_le (Nat.le_trans (countP_replaceFrom_le free _ cs) hrest)
    · have hrest := (List.infix_cons_iff.mp h).resolve_left hprefix
      rw [if_neg (mt List.isPrefixOf_iff_prefix.mp hprefix), List.countP_cons, List.countP_cons]
      exact Nat.add_lt_add_right (ih hrest) _

end Text

namespace Mapping

open Text (lines replaceAll)

/-! ## The template of a query -/

/-- What stands in front of the index. -/
def queryStart : List String :=
  ["\x7b", "  \"version\": \"2017-02-28\",", "  \"operation\": \"Query\","]

/-- What stands behind the index, with the key in its place. -/
def queryEnd (key : String) : List String :=
  ["  \"query\": \x7b",
   "    \"expression\": \"#connectionAttribute = :connectionAttribute\",",
   "    \"expressionNames\": \x7b \"#connectionAttribute\": \"" ++ key ++ "\" \x7d,",
   "    \"expressionValues\": \x7b \":connectionAttribute\": \x7b \"S\": \"$ctx.source.id\" \x7d \x7d",
   "  \x7d,",
   "  \"limit\": $util.defaultIfNull($ctx.args.limit, 10),",
   "  \"nextToken\": $util.toJson($util.defaultIfNullOrEmpty($ctx.args.nextToken, null))",
   "\x7d"]

/-- A query with a text in the place of the literal that names the index. -/
def queryTemplate (literal key : String) : String :=
  lines (queryStart ++ ["  \"index\": " ++ literal ++ ","] ++ queryEnd key)

lemma queryTemplate_injective {a b key : String} (h : queryTemplate a key = queryTemplate b key) :
    a = b := by
  have hsplit (literal : String) : queryTemplate literal key =
      lines queryStart ++ "\n" ++
        ("  \"index\": " ++ literal ++ "," ++ "\n" ++ lines (queryEnd key)) := by
    rw [queryTemplate, List.append_assoc, List.singleton_append, lines,
      String.intercalate_append_of_ne_nil (by simp [queryStart]) (by simp),
      String.intercalate_cons_of_ne_nil (by simp [queryEnd])]
    rfl
  rw [hsplit, hsplit] at h
  simpa using h

lemma queryRequest_eq (index key : String) :
    queryRequest index key = queryTemplate (Json.quoted (replaceAll index "%KEY%" key)) key := by
  refine congrArg lines ?_
  generalize replaceAll index "%KEY%" key = name
  have hindex : "  " ++ ("\"index\": \"" ++ name ++ "\"" ++ ",") =
      "  \"index\": " ++ Json.quoted name ++ "," :=
    String.toList_inj.mp (by simp [Json.quoted])
  have hkey : "  " ++ ("  \"expressionNames\": \x7b \"#connectionAttribute\": \"" ++ key ++
      "\" \x7d,") = "    \"expressionNames\": \x7b \"#connectionAttribute\": \"" ++ key ++
      "\" \x7d," := String.toList_inj.mp (by simp)
  simp [object, withCommas, paging, queryStart, queryEnd, hindex, hkey]

/-- The request is the template with a literal that is read as the name of the index, and with its
key. -/
def NamesIndex (request index key : String) : Prop :=
  ∃ literal, Json.parse? literal = some (.string index) ∧ request = queryTemplate literal key

/-- A text that can stand between quotes, and in a template with a mark for the key, as it is. -/
structure Quotable (n : String) : Prop where
  bare : ∀ c ∈ n.toList, JsonText.Bare c
  unmarked : ¬ "%KEY%".toList <:+: n.toList

/-- The characters that a request loses or gains where it does not name its index: those that begin
an escape or a mark. -/
def isSign (c : Char) : Bool := c == '%' || c == '\\'

/-- A request names its index exactly when the name is quotable. -/
lemma namesIndex_queryRequest_iff {index key : String} (plain : key.toList.countP isSign = 0) :
    NamesIndex (queryRequest index key) index key ↔ Quotable index := by
  rw [queryRequest_eq]
  constructor
  · rintro ⟨literal, hliteral, hrequest⟩
    obtain rfl := queryTemplate_injective hrequest
    -- reading does not make up for the mark that replacing takes away
    have unmarked : ¬ "%KEY%".toList <:+: index.toList := by
      intro marked
      have hread := Json.countP_le_of_parse? hliteral (q := isSign) rfl
      have hmark : '%' :: ['K', 'E', 'Y', '%'] <:+: index.toList := marked
      have hlost := Text.countP_replaceFrom_lt plain rfl hmark
      rw [replaceAll, String.toList_ofList] at hread
      exact Nat.not_lt.mpr hread hlost
    have hsame : replaceAll index "%KEY%" key = index := by
      rw [replaceAll, Text.replaceFrom_of_not_infix unmarked, String.ofList_toList]
    rw [hsame] at hliteral
    exact ⟨Json.parse?_quoted_iff.mp hliteral, unmarked⟩
  · rintro ⟨bare, unmarked⟩
    refine ⟨Json.quoted index, Json.parse?_quoted_iff.mpr bare, ?_⟩
    rw [replaceAll, Text.replaceFrom_of_not_infix unmarked, String.ofList_toList]

/-! ## Names that are quotable -/

lemma quotable_append_iff {a b : String} (plain : ∀ c ∈ a.toList, JsonText.Bare c ∧ c ≠ '%') :
    Quotable (a ++ b) ↔ Quotable b := by
  have hinfix : "%KEY%".toList <:+: a.toList ++ b.toList ↔ "%KEY%".toList <:+: b.toList := by
    generalize b.toList = cs
    generalize a.toList = as at plain
    induction as with
    | nil => rfl
    | cons c as ih =>
      rw [List.forall_mem_cons] at plain
      rw [List.cons_append, List.infix_cons_iff, ih plain.2]
      refine or_iff_right fun hprefix => plain.1.2 ?_
      exact (List.cons_prefix_cons.mp hprefix).1.symm
  constructor
  · rintro ⟨bare, unmarked⟩
    rw [String.toList_append] at bare unmarked
    exact ⟨fun c hc => bare c (List.mem_append_right _ hc), mt hinfix.mpr unmarked⟩
  · rintro ⟨bare, unmarked⟩
    refine ⟨fun c hc => ?_, ?_⟩
    · rcases List.mem_append.mp (String.toList_append ▸ hc) with hc | hc
      · exact (plain c hc).1
      · exact bare c hc
    · rw [String.toList_append]
      exact mt hinfix.mp unmarked

end Mapping

namespace Lexer

/-- The characters of names are ASCII, bare, and no marks, and changing their case leaves them
characters of names. -/
lemma plain_of_continuesName {c : Char} (h : continuesName c = true) :
    (JsonText.Bare c ∧ c ≠ '%') ∧ continuesName c.toUpper = true ∧ continuesName c.toLower = true := by
  have all : ∀ n < 128, continuesName (Char.ofNat n) = true →
      (JsonText.Bare (Char.ofNat n) ∧ Char.ofNat n ≠ '%') ∧
        continuesName (Char.ofNat n).toUpper = true ∧
        continuesName (Char.ofNat n).toLower = true := by decide
  have ascii : c.toNat < 128 := by
    have hcases : startsName c = true ∨ isDigit c = true := Bool.or_eq_true_iff.mp h
    rcases hcases with hstarts | hdigit
    · exact Nat.lt_of_le_of_lt (toNat_of_startsName hstarts).2 (by decide)
    · rw [isDigit, Bool.and_eq_true, decide_eq_true_eq, decide_eq_true_eq] at hdigit
      exact Nat.lt_of_le_of_lt (show c.toNat ≤ 57 from hdigit.2) (by decide)
  have hc := all c.toNat ascii
  rw [Char.ofNat_toNat] at hc
  exact hc h

lemma continues_mapFirst {f : Char → Char}
    (kept : ∀ c, continuesName c = true → continuesName (f c) = true) {cs : List Char}
    (h : ∀ c ∈ cs, continuesName c = true) :
    ∀ c ∈ Text.mapFirst f cs, continuesName c = true := by
  cases cs with
  | nil => exact h
  | cons c cs =>
    rw [List.forall_mem_cons] at h
    exact List.forall_mem_cons.mpr ⟨kept c h.1, h.2⟩

end Lexer

namespace Indexing

open Lexer (IsName continuesName plain_of_continuesName continues_mapFirst)

/-- A type and a field whose names are spelled as names. -/
structure Named (x : ObjectType × Field) : Prop where
  type : IsName x.1.name
  field : IsName x.2.name

lemma continues_upperFirst {n : String} (h : IsName n) :
    ∀ c ∈ (Text.upperFirst n).toList, continuesName c = true := by
  rw [Text.upperFirst, String.toList_ofList]
  exact continues_mapFirst (fun c hc => (plain_of_continuesName hc).2.1) (Sdl.continues_of_isName h)

lemma continues_lowerFirst {n : String} (h : IsName n) :
    ∀ c ∈ (Text.lowerFirst n).toList, continuesName c = true := by
  rw [Text.lowerFirst, String.toList_ofList]
  exact continues_mapFirst (fun c hc => (plain_of_continuesName hc).2.2) (Sdl.continues_of_isName h)

lemma countP_keyName {x : ObjectType × Field} (named : Named x) :
    (keyName x).toList.countP Mapping.isSign = 0 := by
  refine List.countP_eq_zero.mpr fun c hc => ?_
  have hname : continuesName c = true := by
    rw [keyName, String.toList_append, String.toList_append] at hc
    rcases List.mem_append.mp hc with hc | hc
    · rcases List.mem_append.mp hc with hc | hc
      · exact continues_lowerFirst named.type c hc
      · exact continues_upperFirst named.field c hc
    · exact List.all_eq_true.mp (show "Id".toList.all continuesName = true by decide) c hc
  obtain ⟨⟨⟨_, hslash, _⟩, hpercent⟩, _⟩ := plain_of_continuesName hname
  simp [Mapping.isSign, hslash, hpercent]

/-- The name of an index is quotable where that of its relation is, or where it has none. -/
lemma quotable_indexName_iff {x : ObjectType × Field} (named : Named x) :
    Mapping.Quotable (indexName x) ↔
      ∀ n, x.2.connectionName? = some n → Mapping.Quotable n := by
  have hprefix : ∀ c ∈ "gsi-".toList, JsonText.Bare c ∧ c ≠ '%' :=
    List.all_iff_forall_prop.mp (by decide)
  rw [indexName, Mapping.quotable_append_iff hprefix]
  cases hname : x.2.connectionName? with
  | some n => simp
  | none =>
    have plain : ∀ c ∈ (x.1.name ++ Text.upperFirst x.2.name).toList, JsonText.Bare c ∧ c ≠ '%' := by
      intro c hc
      rw [String.toList_append] at hc
      rcases List.mem_append.mp hc with hc | hc
      · exact (plain_of_continuesName (Sdl.continues_of_isName named.type c hc)).1
      · exact (plain_of_continuesName (continues_upperFirst named.field c hc)).1
    refine iff_of_true ?_ (by simp)
    have hempty := Mapping.quotable_append_iff (b := "") plain
    rw [String.append_empty] at hempty
    exact hempty.mpr ⟨by simp, by decide⟩

end Indexing

namespace Connection

/-- A list field has its relation among those of the schema. -/
lemma listRelation_mem {s : Schema} (distinct : (s.objects.map ObjectType.name).Nodup)
    {rs : List Relation} (h : relations (Model.registered s) = .ok rs) {x : ObjectType × Field}
    (hx : x ∈ s.connectionFields) (list : x.2.type.isList = true) : listRelation x ∈ rs := by
  obtain ⟨r, hr, hresolve⟩ := exists_of_mem_forall₂ (forall₂_of_relations h).flip hx
  have hrelation := relation_of_resolve distinct hresolve
  rw [if_pos list] at hrelation
  exact hrelation ▸ hr

end Connection

namespace Pipeline

open Indexing Mapping

lemma named_of_parse {text : String} {s : Schema} (h : Schema.parse text = .ok s)
    {x : ObjectType × Field} (hx : x ∈ s.connectionFields) : Named x := by
  obtain ⟨ho, hf, _⟩ := Schema.mem_connectionFields.mp hx
  obtain ⟨htype, hfields⟩ := Sdl.legible_of_mem_objects (Schema.legible_of_parse h).1 ho
  exact ⟨htype, (hfields _ hf).name⟩

/-- The request of a list field is put together from the name and the key of an index that the table
of its items has. -/
lemma query_of_compileSchema {c : BuildConfig} {p : Pipeline} (hp : standard c = .ok p)
    {s : Schema} (distinct : (s.objects.map ObjectType.name).Nodup) {d : Document}
    (compiled : p.compileSchema s = .ok d) {x : ObjectType × Field} (hx : x ∈ s.connectionFields)
    (list : x.2.type.isList = true) :
    d.property? (x.1.name ++ Text.upperFirst x.2.name ++ "Resolver") "RequestMappingTemplate" =
        some (.string (queryRequest (indexName x) (keyName x))) ∧
      ∃ throughput indexes,
        d.property? (x.2.type.base ++ "Table") "GlobalSecondaryIndexes" = some (.array indexes) ∧
          index throughput x ∈ indexes := by
  obtain ⟨rs, assembled⟩ := assembled_of_compileSchema hp distinct compiled
  have hr := Connection.listRelation_mem distinct assembled.relations hx list
  constructor
  · change (d.get? (Connection.resolverId (Connection.listRelation x))).bind _ = _
    rw [assembled.get?_relation distinct hr]
    rfl
  · obtain ⟨_, _, _, _, _, _, _, _, t, ht, htarget⟩ := assembled.resolved distinct _ hr
    have hbase : t.name = x.2.type.base := htarget
    have hlisted : x ∈ s.listFields t.name := List.mem_filter.mpr ⟨hx, by simp [list, hbase]⟩
    obtain ⟨_, ⟨throughput, _, hindexes⟩, _, _⟩ := indexed_of_compileSchema hp distinct compiled ht
    rw [if_neg (by simpa using List.ne_nil_of_mem hlisted), hbase] at hindexes
    exact ⟨throughput, _, hindexes, List.mem_map_of_mem (hbase ▸ hlisted)⟩

/-- In a compiled document, the resolver of a list field has a request, and the table of its items
has the index that the request is for. The request names this index exactly when the name that the
field gives its relation, if it gives one, is quotable. -/
theorem namesIndex_iff_of_compile {c : BuildConfig} {p : Pipeline} (hp : standard c = .ok p)
    {text : String} {d : Document} (compiled : p.compile text = .ok d) :
    ∃ s, Schema.parse text = .ok s ∧
      ∀ x ∈ s.connectionFields, x.2.type.isList = true →
        ∃ request throughput indexes,
          d.property? (x.1.name ++ Text.upperFirst x.2.name ++ "Resolver")
              "RequestMappingTemplate" = some (.string request) ∧
            d.property? (x.2.type.base ++ "Table") "GlobalSecondaryIndexes" =
              some (.array indexes) ∧
            index throughput x ∈ indexes ∧
            (NamesIndex request (indexName x) (keyName x) ↔
              ∀ n, x.2.connectionName? = some n → Quotable n) := by
  obtain ⟨s, hparse, hcompiled, _⟩ := exists_compiled hp compiled
  refine ⟨s, hparse, fun x hx list => ?_⟩
  have distinct := Schema.nodup_objects (Schema.check_of_parse hparse)
  have named := named_of_parse hparse hx
  obtain ⟨hrequest, throughput, indexes, hindexes, hmem⟩ :=
    query_of_compileSchema hp distinct hcompiled hx list
  refine ⟨_, throughput, indexes, hrequest, hindexes, hmem, ?_⟩
  exact (namesIndex_queryRequest_iff (countP_keyName named)).trans (quotable_indexName_iff named)

/-- What is written by an author is found by an index with the name of this relation. -/
theorem namesIndex_iff_of_compile_listing :
    ∃ d request, listingPipeline.compile listingText = .ok d ∧
      d.property? "AuthorPostsResolver" "RequestMappingTemplate" = some (.string request) ∧
      NamesIndex request "gsi-written" "authorPostsId" := by
  have heval : (Schema.parse listingText).toOption.any (fun s =>
      (listingPipeline.compileSchema s).toOption.isSome ∧
      (s.connectionFields.any fun x => decide (x.2.type.isList = true ∧
        x.1.name = "Author" ∧ x.2.name = "posts" ∧ x.2.connectionName? = some "written")) = true) =
      true := by
    decide +kernel
  obtain ⟨s, hparse, hs⟩ := exists_of_any heval
  obtain ⟨hok, hx⟩ := of_decide_eq_true hs
  obtain ⟨x, hx, hfield⟩ := List.any_eq_true.mp hx
  obtain ⟨list, htype, hname, hrelation⟩ := of_decide_eq_true hfield
  have hp : standard listingConfig = .ok listingPipeline := rfl
  cases hcompiled : listingPipeline.compileSchema s with
  | error e =>
    rw [hcompiled] at hok
    cases hok
  | ok d =>
    have hcompile := (compile_of_parse (p := listingPipeline) hparse).trans hcompiled
    obtain ⟨s', hparse', queries⟩ := namesIndex_iff_of_compile hp hcompile
    obtain rfl := Except.ok.inj (hparse.symm.trans hparse')
    obtain ⟨request, _, _, hrequest, _, _, names⟩ := queries x hx list
    rw [indexName, keyName, htype, hname, hrelation] at names
    rw [htype, hname] at hrequest
    refine ⟨d, request, hcompile, hrequest, names.mpr fun n hn => ?_⟩
    obtain rfl := Option.some.inj hn
    exact ⟨List.all_iff_forall_prop.mp (by decide), by decide⟩

/-- A relation whose name has a quote in it. -/
def quoteText : String :=
  "type Blog @model \x7b id: ID! posts: [Post] @connection(name: \"a\\\"b\") \x7d\n" ++
    "type Post @model \x7b id: ID! \x7d"

def quoteConfig : BuildConfig := { apiName := "blog" }

def quotePipeline : Pipeline := ⟨standardStages quoteConfig, rfl⟩

/-- The quote ends the literal, so that the request does not name the index of the table. -/
theorem query_misnames_index :
    standard quoteConfig = .ok quotePipeline ∧
      ∃ d request throughput indexes, quotePipeline.compile quoteText = .ok d ∧
        d.property? "BlogPostsResolver" "RequestMappingTemplate" = some (.string request) ∧
        request = queryTemplate "\"gsi-a\"b\"" "blogPostsId" ∧
        d.property? "PostTable" "GlobalSecondaryIndexes" = some (.array indexes) ∧
        .object
          [("IndexName", .string "gsi-a\"b"),
           ("KeySchema", .array
             [.object [("AttributeName", .string "blogPostsId"), ("KeyType", .string "HASH")]]),
           ("Projection", .object [("ProjectionType", .string "ALL")]),
           ("ProvisionedThroughput", throughput)] ∈ indexes ∧
        ¬ NamesIndex request "gsi-a\"b" "blogPostsId" := by
  have hp : standard quoteConfig = .ok quotePipeline := rfl
  have heval : (Schema.parse quoteText).toOption.any (fun s =>
      (quotePipeline.compileSchema s).toOption.isSome ∧
      (s.connectionFields.any fun x => decide (x.2.type.isList = true ∧
        x.1.name = "Blog" ∧ x.2.name = "posts" ∧ x.2.type.base = "Post" ∧
        x.2.connectionName? = some "a\"b")) = true) = true := by
    decide +kernel
  obtain ⟨s, hparse, hs⟩ := exists_of_any heval
  obtain ⟨hok, hx⟩ := of_decide_eq_true hs
  obtain ⟨x, hx, hfield⟩ := List.any_eq_true.mp hx
  obtain ⟨list, htype, hname, hbase, hrelation⟩ := of_decide_eq_true hfield
  have distinct := Schema.nodup_objects (Schema.check_of_parse hparse)
  cases hcompiled : quotePipeline.compileSchema s with
  | error e =>
    rw [hcompiled] at hok
    cases hok
  | ok d =>
    obtain ⟨hrequest, throughput, indexes, hindexes, hmem⟩ :=
      query_of_compileSchema hp distinct hcompiled hx list
    rw [index, indexName, keyName, htype, hname, hrelation] at hmem
    rw [indexName, keyName, htype, hname, hrelation] at hrequest
    rw [hbase] at hindexes
    have hcompile := (compile_of_parse (p := quotePipeline) hparse).trans hcompiled
    have hkey : "blogPostsId".toList.countP isSign = 0 := by decide
    have hquotable : ¬ Quotable "gsi-a\"b" := fun h => by
      have hquote := h.bare '"' (by decide)
      exact hquote.1 rfl
    refine ⟨hp, d, _, throughput, indexes, hcompile, hrequest, ?_, hindexes, hmem, ?_⟩
    · exact (queryRequest_eq "gsi-a\"b" "blogPostsId").trans (by rfl)
    · exact mt (namesIndex_queryRequest_iff hkey).mp hquotable

end Pipeline

end SchemaStack
