import SchemaStack.Proofs.Directive.Enforcement
import SchemaStack.Proofs.Schema.Legibility
/-!
# Owner fields in guards

The guards of a type with an owner rule have one place each for the field of the owner: between
quotes where an item is written, behind a dot where it is read. The field is put there as it is.
Around the place nothing goes on with a name, so a field that is spelled as a name is one token of
the guard, and two such fields make guards that differ in this token only. Any other field reaches
beyond it. A bare name is always spelled as one, but a string can be anything.
-/

namespace SchemaStack

open Lexer (IsName continuesName)

namespace Frame

/-- A text whose end is not the beginning of a name. -/
def Opens (before : String) : Prop :=
  ∃ c, before.toList.getLast? = some c ∧ continuesName c = false

/-- A text whose beginning ends a name. -/
def Closes (after : String) : Prop :=
  ∃ c, after.toList.head? = some c ∧ continuesName c = false

lemma Opens.append {b : String} (h : Opens b) (a : String) : Opens (a ++ b) := by
  obtain ⟨c, hc, hname⟩ := h
  refine ⟨c, ?_, hname⟩
  rw [String.toList_append, List.getLast?_append, hc]
  rfl

lemma Closes.append {a : String} (h : Closes a) (b : String) : Closes (a ++ b) := by
  obtain ⟨c, hc, hname⟩ := h
  refine ⟨c, ?_, hname⟩
  rw [String.toList_append, List.head?_append, hc]
  rfl

end Frame

/-- A text, or two texts around a place where a name can stand by itself. -/
inductive Frame where
  | fixed (text : String)
  | around (before after : String) (opens : Frame.Opens before) (closes : Frame.Closes after)

namespace Frame

/-- The text with something in the place. -/
def fill (content : String) : Frame → String
  | fixed text => text
  | around before after _ _ => before ++ content ++ after

/-- The text is that of the frame with a name in the place. -/
def Intact : Frame → String → Prop
  | fixed text, t => t = text
  | around before after _ _, t => ∃ n, IsName n ∧ t = before ++ n ++ after

/-- A name that is filled in stays within its frame. -/
lemma intact_fill {content : String} (h : IsName content) (f : Frame) :
    f.Intact (f.fill content) := by
  cases f with
  | fixed text => rfl
  | around before after => exact ⟨content, h, rfl⟩

lemma isName_of_intact {before after content : String} {opens : Opens before}
    {closes : Closes after}
    (h : (around before after opens closes).Intact (before ++ content ++ after)) :
    IsName content := by
  obtain ⟨n, hn, heq⟩ := h
  have same : content = n := by simpa using heq
  exact same ▸ hn

end Frame

namespace Guard

open Text (lines)

/-! ## The places of owner fields -/

lemma terminated_append (ls ls' : List String) :
    terminated (ls ++ ls') = terminated ls ++ terminated ls' := by
  rw [terminated, List.map_append, String.join_append]
  rfl

lemma terminated_cons (l : String) (ls : List String) :
    terminated (l :: ls) = l ++ "\n" ++ terminated ls := by
  rw [terminated, List.map_cons, String.join_cons]
  rfl

/-- A place in one of several lines. -/
lemma terminated_around (ls ls' : List String) (front content back : String) :
    terminated (ls ++ (front ++ content ++ back) :: ls') =
      terminated ls ++ front ++ content ++ (back ++ "\n" ++ terminated ls') := by
  rw [terminated_append, terminated_cons]
  simp only [String.append_assoc]

lemma lines_around (ls : List String) {ls' : List String} (more : ls' ≠ [])
    (front content back : String) :
    lines (ls ++ (front ++ content ++ back) :: ls') =
      terminated ls ++ front ++ content ++ (back ++ "\n" ++ lines ls') := by
  induction ls with
  | nil =>
    rw [List.nil_append, lines, String.intercalate_cons_of_ne_nil more]
    simp [terminated, lines, String.append_assoc]
  | cons l ls ih =>
    rw [List.cons_append, lines, String.intercalate_cons_of_ne_nil (by simp)]
    rw [lines] at ih
    rw [ih, terminated_cons]
    simp only [String.append_assoc]

/-- Around the field that a new item gets its owner in. -/
def writeFront : String :=
  terminated ["#if(!$isStaticGroupAuthorized)"] ++ "$util.qr($ctx.args.input.put(\""

def writeBack : String := "\", $ctx.identity.username))" ++ "\n" ++ terminated ["#end"]

lemma opens_writeFront (text : String) : Frame.Opens (text ++ writeFront) :=
  .append (.append ⟨'"', by decide, rfl⟩ _) text

lemma closes_writeBack (text : String) : Frame.Closes (writeBack ++ text) :=
  .append (.append (.append ⟨'"', by decide, rfl⟩ _) _) text

lemma writeOwner_eq (owner : String) : writeOwner owner = writeFront ++ owner ++ writeBack :=
  terminated_around ["#if(!$isStaticGroupAuthorized)"] ["#end"] _ owner _

/-- Around the field that has to hold the caller where an item is changed. -/
def conditionFront : String :=
  terminated
    ["#set($authCondition = \x7b \"expression\": \"attribute_exists(#id)\", " ++
       "\"expressionNames\": \x7b \"#id\": \"id\" \x7d \x7d)",
     "#if(!$isStaticGroupAuthorized)",
     "#set($authCondition.expression = \"attribute_exists(#id) AND #owner = :owner\")"] ++
  "$util.qr($authCondition.expressionNames.put(\"#owner\", \""

def conditionBack : String :=
  "\"))" ++ "\n" ++ terminated
    ["$util.qr($authCondition.put(\"expressionValues\", \x7b \":owner\": " ++
       "$util.dynamodb.toDynamoDB($ctx.identity.username) \x7d))",
     "#end"]

lemma opens_conditionFront (text : String) : Frame.Opens (text ++ conditionFront) :=
  .append (.append ⟨'"', by decide, rfl⟩ _) text

lemma closes_conditionBack (text : String) : Frame.Closes (conditionBack ++ text) :=
  .append (.append (.append ⟨'"', by decide, rfl⟩ _) _) text

lemma ownerCondition_eq (owner : String) :
    ownerCondition owner = conditionFront ++ owner ++ conditionBack :=
  terminated_around [_, _, _] [_, _] _ owner _

/-- Around the field of an item that has to hold the caller. -/
def itemFront : String :=
  terminated [] ++
    "#if($util.isNull($ctx.result) || $ctx.stash.isStaticGroupAuthorized || $ctx.result."

def itemBack : String :=
  " == $ctx.identity.username)" ++ "\n" ++
    lines [Mapping.response, "#else", "$util.unauthorized()", "#end"]

lemma opens_itemFront : Frame.Opens itemFront := .append ⟨'.', by decide, rfl⟩ _

lemma closes_itemBack : Frame.Closes itemBack := .append (.append ⟨' ', by decide, rfl⟩ _) _

lemma itemResponse_eq (owner : String) : itemResponse owner = itemFront ++ owner ++ itemBack :=
  lines_around [] (List.cons_ne_nil _ _) _ owner _

/-- Around the field of each item of a list. -/
def itemsFront : String :=
  terminated ["#set($items = [])", "#foreach($item in $ctx.result.items)"] ++
    "#if($ctx.stash.isStaticGroupAuthorized || $item."

def itemsBack : String :=
  " == $ctx.identity.username)" ++ "\n" ++
    lines ["$util.qr($items.add($item))", "#end", "#end",
      "$util.toJson(\x7b \"items\": $items, \"nextToken\": $ctx.result.nextToken \x7d)"]

lemma opens_itemsFront : Frame.Opens itemsFront := .append ⟨'.', by decide, rfl⟩ _

lemma closes_itemsBack : Frame.Closes itemsBack := .append (.append ⟨' ', by decide, rfl⟩ _) _

lemma itemsResponse_eq (owner : String) : itemsResponse owner = itemsFront ++ owner ++ itemsBack :=
  lines_around [_, _] (List.cons_ne_nil _ _) _ owner _

/-- What the request of an operation is, where a type has an owner rule. -/
def requestFrame (groups : List String) : Operation → Frame
  | .get => .fixed (groupCheck groups ++ Mapping.request .get)
  | .list => .fixed (groupCheck groups ++ Mapping.request .list)
  | .create =>
    .around (groupCheck groups ++ writeFront) (writeBack ++ Mapping.request .create)
      (opens_writeFront _) (closes_writeBack _)
  | .update =>
    .around (groupCheck groups ++ conditionFront)
      (conditionBack ++ withOwnerCondition (Mapping.request .update))
      (opens_conditionFront _) (closes_conditionBack _)
  | .delete =>
    .around (groupCheck groups ++ conditionFront)
      (conditionBack ++ withOwnerCondition (Mapping.request .delete))
      (opens_conditionFront _) (closes_conditionBack _)

/-- The same of its response. -/
def responseFrame : Operation → Frame
  | .get => .around itemFront itemBack opens_itemFront closes_itemBack
  | .list => .around itemsFront itemsBack opens_itemsFront closes_itemsBack
  | .create => .fixed Mapping.response
  | .update => .fixed Mapping.response
  | .delete => .fixed Mapping.response

/-- In the request of an operation the owner field is filled in at one place or nowhere. -/
lemma request_eq_fill (op : Operation) (owner : String) (groups : List String) :
    request op ⟨some owner, groups⟩ (Mapping.request op) =
      (requestFrame groups op).fill owner := by
  cases op with
  | get => rfl
  | list => rfl
  | create =>
    simp only [request, writeOwner_eq, requestFrame, Frame.fill, String.append_assoc]
  | update =>
    simp only [request, ownerCondition_eq, requestFrame, Frame.fill, String.append_assoc]
  | delete =>
    simp only [request, ownerCondition_eq, requestFrame, Frame.fill, String.append_assoc]

lemma response_eq_fill (op : Operation) (owner : String) (groups : List String) :
    (response? op ⟨some owner, groups⟩).getD Mapping.response =
      (responseFrame op).fill owner := by
  cases op with
  | get => exact itemResponse_eq owner
  | list => exact itemsResponse_eq owner
  | create => rfl
  | update => rfl
  | delete => rfl

end Guard

/-! ## Owner fields in a document -/

namespace Auth

/-- The resolvers of the operations on a type have a text in all places of the owner field. -/
structure OwnedBy (d : Document) (type : String) (groups : List String) (owner : String) : Prop where
  requests : ∀ op : Operation,
    d.property? (op.resolverId type) "RequestMappingTemplate" =
      some (.string ((Guard.requestFrame groups op).fill owner))
  responses : ∀ op : Operation,
    d.property? (op.resolverId type) "ResponseMappingTemplate" =
      some (.string ((Guard.responseFrame op).fill owner))

/-- They have a name in each of the places. -/
structure Intact (d : Document) (type : String) (groups : List String) : Prop where
  requests : ∀ op : Operation, ∃ t,
    d.property? (op.resolverId type) "RequestMappingTemplate" = some (.string t) ∧
      (Guard.requestFrame groups op).Intact t
  responses : ∀ op : Operation, ∃ t,
    d.property? (op.resolverId type) "ResponseMappingTemplate" = some (.string t) ∧
      (Guard.responseFrame op).Intact t

variable {d : Document} {type owner : String} {groups : List String}

lemma intact_iff_of_ownedBy (owned : OwnedBy d type groups owner) :
    Intact d type groups ↔ IsName owner := by
  constructor
  · intro intact
    obtain ⟨t, ht, hintact⟩ := intact.responses .get
    rw [owned.responses .get, Option.some.injEq, Json.string.injEq] at ht
    subst ht
    exact Frame.isName_of_intact hintact
  · intro name
    exact ⟨fun op => ⟨_, owned.requests op, Frame.intact_fill name _⟩,
      fun op => ⟨_, owned.responses op, Frame.intact_fill name _⟩⟩

/-- What guards leave alone is the response that a model type starts with. -/
lemma response_built_of_none {pool name : String} {config : BuildConfig} {s : Schema}
    {rs : List Relation} {o : ObjectType} {rules : AuthRules}
    (distinct : (s.objects.map ObjectType.name).Nodup)
    (guardable : ∀ o ∈ s.objects, Guardable o) (ho : o ∈ s.objects)
    (hr : AuthRules.ofType? o = .ok (some rules)) {op : Operation}
    (hnone : Guard.response? op rules = none) :
    (built pool name config s rs).document.property? (op.resolverId o.name)
        "ResponseMappingTemplate" = some (.string Mapping.response) := by
  rw [property?_built_of_untouched, Document.property?, Connection.get?_built_resolver name config
    distinct rs (mem_modelTypes_of_rules guardable ho hr) op]
  · rfl
  · intro a ha htarget
    rcases mem_guardsOfOperation.mp (mem_guards_of_target distinct ha ho hr htarget) with
      rfl | ⟨_, hresponse, _⟩
    · simp
    · rw [hnone] at hresponse
      cases hresponse

end Auth

namespace AuthRules

/-- What an object has under a key comes from where the object comes from. -/
lemma from_of_member? {source : Source} {rule v : Literal} {key : String}
    (h : rule.From source) (hv : rule.member? key = some v) : v.From source := by
  cases h with
  | object _ values => exact values _ (Entries.mem_of_get? hv)
  | _ => cases hv

lemma from_of_mem_rules {source : Source} {d : Directive} {rules : List Literal} {rule : Literal}
    (h : d.From source) (hrules : d.arguments.get? "rules" = some (.list rules))
    (hrule : rule ∈ rules) : rule.From source := by
  have hfrom := (h.arguments _ (Entries.mem_of_get? hrules)).2
  cases hfrom with
  | list items => exact items rule hrule

/-- There is one owner rule at most, so the field is that of any. -/
lemma ownerField_ofRules {rules : List Literal} (acceptable : Acceptable rules) {rule : Literal}
    (hrule : rule ∈ rules) (howner : IsOwner rule) :
    (ofRules rules).ownerField = ownerField? rule := by
  have hmem : rule ∈ rules.filter (IsOwner ·) := List.mem_filter.mpr ⟨hrule, by simpa using howner⟩
  have hlength : (rules.filter (IsOwner ·)).length ≤ 1 := by
    rw [← List.countP_eq_length_filter]
    exact acceptable.oneOwner
  obtain ⟨only, honly⟩ := List.length_eq_one_iff.mp
    (hlength.antisymm (List.length_pos_of_mem hmem))
  rw [honly] at hmem
  obtain rfl := List.mem_singleton.mp hmem
  rw [ofRules, ← List.head?_filter, honly]
  rfl

/-- A field that is not written or is a bare name is spelled as a name. -/
lemma isName_ownerField?_iff {rule : Literal} (spelled : rule.From .spelled) {owner : String}
    (h : ownerField? rule = some owner) :
    IsName owner ↔ ∀ field, rule.member? "ownerField" = some (.string field) → IsName field := by
  rw [ownerField?] at h
  cases hmember : rule.member? "ownerField" with
  | none =>
    rw [hmember] at h
    obtain rfl := Option.some.inj h
    exact iff_of_true (Sdl.isName_iff.mp (by decide)) (by simp)
  | some v =>
    rw [hmember] at h
    have hfrom := from_of_member? spelled hmember
    cases v with
    | string field =>
      obtain rfl := Option.some.inj h
      simp
    | enum n =>
      obtain rfl := Option.some.inj h
      cases hfrom with
      | enum name => exact iff_of_true name (by simp)
    | _ => cases h

end AuthRules

namespace Pipeline

lemma ownedBy_of_compileSchema {c : BuildConfig} {p : Pipeline} (hp : standard c = .ok p)
    {s : Schema} (distinct : (s.objects.map ObjectType.name).Nodup) {pool : String}
    (hpool : c.userPool = some pool) {d : Document} (compiled : p.compileSchema s = .ok d)
    {o : ObjectType} (ho : o ∈ s.objects) {r : AuthRules}
    (hr : AuthRules.ofType? o = .ok (some r)) {owner : String}
    (howner : r.ownerField = some owner) : Auth.OwnedBy d o.name r.groups owner := by
  obtain ⟨_, guardable, rs, _, rfl⟩ :=
    (compileSchema_eq_ok_iff_of_some hpool hp distinct).mp compiled
  have hrules : r = ⟨some owner, r.groups⟩ := by rw [← howner]
  refine ⟨fun op => ?_, fun op => ?_⟩
  · rw [← Guard.request_eq_fill, ← hrules]
    exact Auth.request_built distinct guardable ho hr op
  · rw [← Guard.response_eq_fill op owner r.groups, ← hrules]
    cases hresponse : Guard.response? op r with
    | none => exact Auth.response_built_of_none distinct guardable ho hr hresponse
    | some response => exact Auth.response_built distinct guardable ho hr hresponse

/-- Where there is a user pool, each operation on a type with an owner rule has the field of the
owner in one place of its guards, with the same texts around it whatever the field. The place has a
name in it exactly where the field is spelled as one, which holds unless the rule gives the field as
a string that is not. -/
theorem ownerField_stands_of_compile {c : BuildConfig} {pool : String}
    (hpool : c.userPool = some pool) {p : Pipeline} (hp : standard c = .ok p) {text : String}
    {d : Document} (compiled : p.compile text = .ok d) :
    ∃ s, Schema.parse text = .ok s ∧
      ∀ o ∈ s.objects, ∀ first, o.directive? "auth" = some first →
        ∃ rules, first.arguments.get? "rules" = some (.list rules) ∧
          ∀ rule ∈ rules, AuthRules.IsOwner rule →
            ∃ owner, AuthRules.ownerField? rule = some owner ∧
              Auth.OwnedBy d o.name (AuthRules.ofRules rules).groups owner ∧
              (Auth.Intact d o.name (AuthRules.ofRules rules).groups ↔ IsName owner) ∧
              (IsName owner ↔ ∀ field,
                rule.member? "ownerField" = some (.string field) → IsName field) := by
  rw [compile] at compiled
  cases hparse : Schema.parse text with
  | error e =>
    rw [hparse] at compiled
    cases compiled
  | ok s =>
    rw [hparse] at compiled
    have distinct := Schema.nodup_objects (Schema.check_of_parse hparse)
    refine ⟨s, rfl, fun o ho first hfirst => ?_⟩
    obtain ⟨r, harguments, hr⟩ :=
      exists_rules_of_compileSchema hp distinct hpool compiled ho hfirst
    obtain ⟨_, rules, hrules, acceptable, rfl⟩ := AuthRules.ofArguments_eq_ok_iff.mp harguments
    refine ⟨rules, hrules, fun rule hrule howner => ?_⟩
    have hfield : (AuthRules.ofRules rules).ownerField = AuthRules.ownerField? rule :=
      AuthRules.ownerField_ofRules acceptable hrule howner
    obtain ⟨owner, hsome⟩ := Option.isSome_iff_exists.mp
      ((AuthRules.inOrder_of_owner_iff howner).mp (acceptable.inOrder rule hrule))
    have owned := ownedBy_of_compileSchema hp distinct hpool compiled ho hr (hfield.trans hsome)
    have spelled : first.From .spelled :=
      ((Schema.from_spelled_of_parse hparse).objects o ho).directives first
        (List.mem_of_find?_eq_some hfirst)
    have spelled := AuthRules.from_of_mem_rules spelled hrules hrule
    exact ⟨owner, hsome, owned, Auth.intact_iff_of_ownedBy owned,
      AuthRules.isName_ownerField?_iff spelled hsome⟩

/-- Notes that belong to their authors. -/
def authorFieldText : String :=
  "type Note @model @auth(rules: [\x7ballow: owner, ownerField: \"author\"\x7d]) \x7b id: ID! \x7d"

/-- A type whose rules name no groups and the author as the owner. -/
def isAuthored (o : ObjectType) : Bool :=
  o.name == "Note" && (o.directive? "auth").any fun first =>
    ((first.arguments.get? "rules").bind Literal.list?).any fun rules =>
      decide ((AuthRules.ofRules rules).groups = []) && rules.any fun rule =>
        decide (AuthRules.IsOwner rule) && AuthRules.ownerField? rule == some "author"

theorem ownerField_stands_of_compile_author :
    ∃ d, notePipeline.compile authorFieldText = .ok d ∧ Auth.Intact d "Note" [] := by
  have hp : standard noteConfig = .ok notePipeline := rfl
  have hok : (notePipeline.compile authorFieldText).toOption.any (fun _ => true) = true := by
    decide +kernel
  have hauthored : (Schema.parse authorFieldText).toOption.any (fun s => s.objects.any isAuthored) =
      true := by decide +kernel
  obtain ⟨d, compiled, _⟩ := exists_of_any hok
  obtain ⟨s, hparse, hs⟩ := exists_of_any hauthored
  obtain ⟨o, ho, hisAuthored⟩ := List.any_eq_true.mp hs
  simp only [isAuthored, Bool.and_eq_true, Option.any_eq_true, List.any_eq_true, beq_iff_eq,
    decide_eq_true_eq] at hisAuthored
  obtain ⟨hname, first, hfirst, rules, hrules, hgroups, rule, hrule, howner, hfield⟩ := hisAuthored
  obtain ⟨s', hparse', htypes⟩ := ownerField_stands_of_compile rfl hp compiled
  obtain rfl := Except.ok.inj (hparse.symm.trans hparse')
  obtain ⟨rules', hrules', hall⟩ := htypes o ho first hfirst
  rw [hrules', Option.bind_some] at hrules
  obtain rfl := Option.some.inj hrules
  obtain ⟨owner, howner', _, intact_iff, _⟩ := hall rule hrule howner
  obtain rfl := Option.some.inj (hfield.symm.trans howner')
  rw [hname, hgroups] at intact_iff
  exact ⟨d, compiled, intact_iff.mpr (Sdl.isName_iff.mp (by decide))⟩

/-- A condition in the place of the owner field. -/
def anyoneText : String :=
  "type Note @model @auth(rules: [\x7ballow: owner, ownerField: \"id || $ctx.result.id\"\x7d]) " ++
    "\x7b id: ID! \x7d"

/-- The text is compiled, and the guard of reading a note holds of every note that has an ID. -/
theorem ownerField_is_condition :
    standard noteConfig = .ok notePipeline ∧
      ∃ d, notePipeline.compile anyoneText = .ok d ∧
        d.property? "GetNoteResolver" "ResponseMappingTemplate" = some (.string
          ("#if($util.isNull($ctx.result) || $ctx.stash.isStaticGroupAuthorized || " ++
            "$ctx.result.id || $ctx.result.id == $ctx.identity.username)\n" ++
            "$util.toJson($ctx.result)\n#else\n$util.unauthorized()\n#end")) ∧
        ¬ Auth.Intact d "Note" [] := by
  obtain ⟨_, _, d, _, _, _, compiled, guarded⟩ :=
    exists_guarded anyoneText ⟨some "id || $ctx.result.id", []⟩ (by decide +kernel)
  have hresponse := guarded.responses .get _ rfl
  refine ⟨rfl, d, compiled, ?_, fun intact => ?_⟩
  · refine hresponse.trans (congrArg (some ∘ Json.string) ?_)
    decide +kernel
  · obtain ⟨t, ht, hintact⟩ := intact.responses .get
    rw [hresponse, Option.some.injEq, Json.string.injEq, Guard.itemResponse_eq] at ht
    subst ht
    have name := Frame.isName_of_intact hintact
    exact absurd (Sdl.isName_iff.mpr name) (by decide)

end Pipeline

end SchemaStack
