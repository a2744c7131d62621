import SchemaStack.Proofs.Directive.Annotation
import SchemaStack.Proofs.Directive.Rules
import SchemaStack.Proofs.Sdl.Compiled
/-!
# What is enforced of the rules of a type

The guards of a type come from its first `@auth` directive, and there from the keys that the
strategies of its rules use. These are read in full: they are acceptable, and the resolvers of the
type are guarded with what they come to. The rest can say anything. Further `@auth` directives of a
type are not looked at, nor are keys of a rule that its strategy has no use for, so that a schema
compiles to the same document without them.
-/

namespace SchemaStack

lemma directiveNamed?_cons (d : Directive) (ds : List Directive) (name : String) :
    directiveNamed? (d :: ds) name = if d.name = name then some d else directiveNamed? ds name := by
  rw [directiveNamed?]
  split
  · rename_i h
    exact List.find?_cons_of_pos (by simp [h])
  · rename_i h
    exact List.find?_cons_of_neg (by simp [h])

namespace AuthRules

/-! ## What is used of rules -/

/-- The keys that the strategy of a rule uses. -/
def usedKeys (rule : Literal) : List String :=
  if IsOwner rule then ["allow", "ownerField"] else ["allow", "groups"]

/-- A rule without the keys that its strategy does not use. -/
def usedOfRule : Literal → Literal
  | .object fields => .object (fields.filter fun e => (usedKeys (.object fields)).contains e.1)
  | rule => rule

def usedOfRules : Literal → Literal
  | .list rules => .list (rules.map usedOfRule)
  | v => v

def usedOfArguments (arguments : Entries Literal) : Entries Literal :=
  arguments.map fun e => (e.1, usedOfRules e.2)

lemma get?_used (fields : Entries Literal) (key : String)
    (used : (usedKeys (.object fields)).contains key = true) :
    Entries.get? (fields.filter fun e => (usedKeys (.object fields)).contains e.1) key =
      fields.get? key :=
  Entries.get?_filter used fields

lemma addRule_used (acc : AuthRules) (rule : Literal) :
    addRule acc (usedOfRule rule) = addRule acc rule := by
  cases rule with
  | object fields =>
    have hallow := get?_used fields "allow"
      (by rw [usedKeys]; split <;> rfl)
    rw [usedOfRule, addRule, addRule, Literal.object?, Literal.object?]
    dsimp only
    rw [hallow]
    cases hstrategy : (Entries.get? fields "allow").bind Literal.text? with
    | none => rfl
    | some strategy =>
      dsimp only
      have howner : IsOwner (.object fields) ↔ strategy = "owner" := by
        change (Entries.get? fields "allow").bind Literal.text? = some "owner" ↔ _
        rw [hstrategy, Option.some.injEq]
      by_cases h : strategy = "owner"
      · have hfield := get?_used fields "ownerField"
          (by rw [usedKeys, if_pos (howner.mpr h)]; rfl)
        rw [if_pos h, if_pos h, addOwner, addOwner, hfield]
      · have hgroups := get?_used fields "groups"
          (by rw [usedKeys, if_neg (mt howner.mp h)]; rfl)
        rw [if_neg h, if_neg h, addGroups, addGroups, hgroups]
  | _ => rfl

lemma addRules_used (acc : AuthRules) (rules : List Literal) :
    addRules acc (rules.map usedOfRule) = addRules acc rules := by
  induction rules generalizing acc with
  | nil => rfl
  | cons rule rules ih =>
    rw [List.map_cons, addRules, addRules, addRule_used]
    cases addRule acc rule with
    | error f => rfl
    | ok acc => exact ih acc

/-- Arguments come to the same rules without what is not used of them. -/
lemma ofArguments_used (arguments : Entries Literal) :
    ofArguments (usedOfArguments arguments) = ofArguments arguments := by
  have hkeys : (usedOfArguments arguments).keys = arguments.keys := List.map_map
  have hrules : ((usedOfArguments arguments).get? "rules").bind Literal.list? =
      ((arguments.get? "rules").bind Literal.list?).map (List.map usedOfRule) := by
    rw [usedOfArguments, Entries.get?_map]
    cases arguments.get? "rules" with
    | none => rfl
    | some v => cases v <;> rfl
  rw [ofArguments, ofArguments, hkeys, hrules]
  cases (arguments.get? "rules").bind Literal.list? with
  | none => rfl
  | some rules =>
    cases rules with
    | nil => rfl
    | cons rule rules =>
      rw [Option.map_some, List.map_cons]
      dsimp only
      rw [← List.map_cons, addRules_used]

/-! ## What is used of directives -/

/-- Nothing is used of an `@auth` directive behind another one. -/
def usedBehind (d : Directive) : Directive :=
  if d.name = "auth" then { d with arguments := [] } else d

/-- What is used of directives as far as they are `@auth`. -/
def enforced : List Directive → List Directive
  | [] => []
  | d :: ds =>
    if d.name = "auth" then
      { d with arguments := usedOfArguments d.arguments } :: ds.map usedBehind
    else d :: enforced ds

lemma name_usedBehind (d : Directive) : (usedBehind d).name = d.name := by
  rw [usedBehind]
  split <;> rfl

lemma map_name_enforced (ds : List Directive) :
    (enforced ds).map Directive.name = ds.map Directive.name := by
  induction ds with
  | nil => rfl
  | cons d ds ih =>
    rw [enforced]
    split
    · rw [List.map_cons, List.map_map, List.map_cons]
      exact congrArg _ (List.map_congr_left fun d _ => name_usedBehind d)
    · rw [List.map_cons, ih, List.map_cons]

lemma transparent_usedBehind {name : String} (h : name ≠ "auth") :
    Transparent (List.map usedBehind) name := by
  intro ds
  induction ds with
  | nil => rfl
  | cons d ds ih =>
    rw [List.map_cons, directiveNamed?_cons, directiveNamed?_cons, name_usedBehind]
    split
    · rename_i hname
      rw [usedBehind, if_neg (hname ▸ h)]
    · exact ih

lemma transparent_enforced {name : String} (h : name ≠ "auth") : Transparent enforced name := by
  intro ds
  induction ds with
  | nil => rfl
  | cons d ds ih =>
    rw [enforced]
    split
    · rename_i hauth
      have hname : d.name ≠ name := fun heq => h (heq.symm.trans hauth)
      rw [directiveNamed?_cons, if_neg hname, directiveNamed?_cons, if_neg hname]
      exact transparent_usedBehind h ds
    · rw [directiveNamed?_cons, directiveNamed?_cons]
      split
      · rfl
      · exact ih

/-- Directives come to the same rules without what is not used of them. -/
lemma keptBy_enforced : KeptBy enforced := by
  intro ds
  have harguments : (directiveNamed? (enforced ds) "auth").map Directive.arguments =
      ((directiveNamed? ds "auth").map Directive.arguments).map usedOfArguments := by
    induction ds with
    | nil => rfl
    | cons d ds ih =>
      rw [enforced]
      split
      · rename_i hauth
        rw [directiveNamed?_cons, directiveNamed?_cons, if_pos hauth, if_pos hauth]
        rfl
      · rename_i hauth
        rw [directiveNamed?_cons, directiveNamed?_cons, if_neg hauth, if_neg hauth, ih]
  rw [among?, among?, harguments]
  cases (directiveNamed? ds "auth").map Directive.arguments with
  | none => rfl
  | some arguments => rw [Option.map_some, Option.elim_some, Option.elim_some, ofArguments_used]

end AuthRules

/-! ## What is enforced in a document -/

namespace Auth

/-- The resolvers of the operations on a type are guarded with rules. -/
structure GuardedBy (d : Document) (type : String) (r : AuthRules) : Prop where
  requests : ∀ op : Operation,
    d.property? (op.resolverId type) "RequestMappingTemplate" =
      some (.string (Guard.request op r (Mapping.request op)))
  responses : ∀ (op : Operation) response, Guard.response? op r = some response →
    d.property? (op.resolverId type) "ResponseMappingTemplate" = some (.string response)

/-- Everything in the `@auth` directives of a type is in effect where it is guarded with rules: each
of the directives can be read, what it comes to is among the rules, and it has no rule with a key
that is of no use. -/
structure WhollyEnforced (o : ObjectType) (r : AuthRules) : Prop where
  directives : ∀ d ∈ o.directives, d.name = "auth" →
    ∃ r', AuthRules.ofArguments d.arguments = .ok r' ∧
      (∀ field, r'.ownerField = some field → r.ownerField = some field) ∧ r'.groups ⊆ r.groups
  keys : ∀ d ∈ o.directives, d.name = "auth" → ∀ rules, d.arguments.get? "rules" =
    some (.list rules) → ∀ rule ∈ rules, ∀ fields : Entries Literal, rule = .object fields →
      ∀ k ∈ fields.keys, k ∈ AuthRules.usedKeys rule

end Auth

namespace Pipeline

section Enforcement

variable {c : BuildConfig} {p : Pipeline} (hp : standard c = .ok p) {s : Schema}
variable (distinct : (s.objects.map ObjectType.name).Nodup) {d : Document}
include hp distinct

/-- A schema compiles to what any other compiles to of which the same is used. -/
lemma compileSchema_of_enforced_eq {s' : Schema}
    (same : s'.annotate AuthRules.enforced id = s.annotate AuthRules.enforced id) :
    p.compileSchema s' = .ok d ↔ p.compileSchema s = .ok d := by
  have independent : ∀ {s : Schema}, (s.objects.map ObjectType.name).Nodup →
      (p.compileSchema (s.annotate AuthRules.enforced id) = .ok d ↔ p.compileSchema s = .ok d) :=
    fun distinct => compileSchema_annotate_iff AuthRules.map_name_enforced
      (AuthRules.transparent_enforced (by decide)) (AuthRules.transparent_enforced (by decide))
      AuthRules.keptBy_enforced hp distinct
  have hnames : s'.objects.map ObjectType.name = s.objects.map ObjectType.name := by
    have hobjects := congrArg (fun s => s.objects.map ObjectType.name) same
    rwa [Schema.objects_annotate, Schema.objects_annotate, Schema.map_name_annotate,
      Schema.map_name_annotate] at hobjects
  rw [← independent distinct, ← same, independent (hnames ▸ distinct)]

lemma guardedBy_of_compileSchema {pool : String} (hpool : c.userPool = some pool)
    (compiled : p.compileSchema s = .ok d) {o : ObjectType} (ho : o ∈ s.objects)
    {r : AuthRules} (hr : AuthRules.ofType? o = .ok (some r)) : Auth.GuardedBy d o.name r := by
  obtain ⟨_, guardable, rs, _, rfl⟩ :=
    (compileSchema_eq_ok_iff_of_some hpool hp distinct).mp compiled
  exact ⟨Auth.request_built distinct guardable ho hr,
    fun _ _ => Auth.response_built distinct guardable ho hr⟩

lemma exists_rules_of_compileSchema {pool : String} (hpool : c.userPool = some pool)
    (compiled : p.compileSchema s = .ok d) {o : ObjectType} (ho : o ∈ s.objects)
    {first : Directive} (hfirst : o.directive? "auth" = some first) :
    ∃ r, AuthRules.ofArguments first.arguments = .ok r ∧
      AuthRules.ofType? o = .ok (some r) := by
  obtain ⟨_, guardable, _⟩ := (compileSchema_eq_ok_iff_of_some hpool hp distinct).mp compiled
  obtain ⟨rules?, hr⟩ := (guardable o ho).readable
  rw [AuthRules.ofType?, hfirst] at hr
  rw [AuthRules.ofType?, hfirst]
  dsimp only at hr ⊢
  cases hrules : AuthRules.ofArguments first.arguments with
  | error f =>
    rw [hrules] at hr
    cases hr
  | ok r => exact ⟨r, rfl, rfl⟩

end Enforcement

/-- Where there is a user pool, a schema is compiled only if the first `@auth` of each type has
acceptable rules and nothing else, and the resolvers of the type are guarded with all that these
rules come to. Whatever else stands in `@auth` is dropped: a schema that differs only in it compiles
to the same document. -/
theorem enforces_first_of_compileSchema {c : BuildConfig} {pool : String}
    (hpool : c.userPool = some pool) {p : Pipeline} (hp : standard c = .ok p) {s : Schema}
    (valid : s.check = .ok ()) {d : Document} (compiled : p.compileSchema s = .ok d) :
    (∀ o ∈ s.objects, ∀ first, o.directive? "auth" = some first →
      ∃ rules, (∀ k ∈ first.arguments.keys, k = "rules") ∧
        first.arguments.get? "rules" = some (.list rules) ∧ AuthRules.Acceptable rules ∧
        Auth.GuardedBy d o.name (AuthRules.ofRules rules)) ∧
      ∀ s', s'.annotate AuthRules.enforced id = s.annotate AuthRules.enforced id →
        p.compileSchema s' = .ok d := by
  have distinct := Schema.nodup_objects valid
  refine ⟨fun o ho first hfirst => ?_, fun s' same => ?_⟩
  · obtain ⟨r, harguments, hr⟩ :=
      exists_rules_of_compileSchema hp distinct hpool compiled ho hfirst
    obtain ⟨hkeys, rules, hrules, acceptable, rfl⟩ :=
      AuthRules.ofArguments_eq_ok_iff.mp harguments
    exact ⟨rules, hkeys, hrules, acceptable,
      guardedBy_of_compileSchema hp distinct hpool compiled ho hr⟩
  · exact (compileSchema_of_enforced_eq hp distinct same).mpr compiled

/-- A schema of one type with these `@auth` directives. -/
def noteWith (auths : List (Entries Literal)) : Schema :=
  ⟨[.object
    { name := "Note"
      directives := ⟨"model", [], 1⟩ :: auths.map fun arguments => ⟨"auth", arguments, 1⟩
      fields := [⟨"id", .nonNull (.named "ID"), [], 1⟩]
      line := 1 }]⟩

/-- The rules of an author, with more around them. -/
def authored (more : Entries Literal) : Entries Literal :=
  [("rules", .list
    [.object (("allow", .enum "owner") :: ("ownerField", .string "author") :: more)])]

def noteConfig : BuildConfig := { apiName := "notes", userPool := some "pool" }

def notePipeline : Pipeline := ⟨standardStages noteConfig, rfl⟩

/-- Members of a group that an owner rule names, and a mode that no `@auth` can have, make no
difference. -/
theorem enforces_first_of_compileSchema_authored :
    let s := noteWith [authored [("groups", .list [.string "Admin"])], [("mode", .enum "open")]]
    ∃ d, notePipeline.compileSchema s = .ok d ∧ Auth.GuardedBy d "Note" ⟨some "author", []⟩ ∧
      notePipeline.compileSchema (noteWith [authored [], []]) = .ok d := by
  intro s
  have hp : standard noteConfig = .ok notePipeline := rfl
  have compiled : ∃ d, notePipeline.compileSchema s = .ok d := ⟨_, rfl⟩
  obtain ⟨d, hd⟩ := compiled
  obtain ⟨hguards, hsame⟩ := enforces_first_of_compileSchema rfl hp rfl hd
  refine ⟨d, hd, ?_, hsame _ rfl⟩
  obtain ⟨rules, _, hrules, _, guarded⟩ := hguards _ List.mem_cons_self _ rfl
  obtain rfl := Literal.list.inj (Option.some.inj hrules)
  exact guarded

/-- Notes for their owners and for the members of a group, in two directives. -/
def splitText : String :=
  "type Note @model @auth(rules: [\x7ballow: owner\x7d]) " ++
    "@auth(rules: [\x7ballow: groups, groups: [\"Admin\"]\x7d]) \x7b id: ID! \x7d"

/-- The same in one directive. -/
def joinedText : String :=
  "type Note @model @auth(rules: [\x7ballow: owner\x7d, " ++
    "\x7ballow: groups, groups: [\"Admin\"]\x7d]) \x7b id: ID! \x7d"

/-- A text of one type is compiled and guarded with the rules of the type. -/
lemma exists_guarded (text : String) (r : AuthRules)
    (h : (Schema.parse text).toOption.any (fun s =>
      (notePipeline.compileSchema s).toOption.isSome = true ∧
        s.objects.map (fun o => (o.name, (AuthRules.ofType? o).toOption)) =
          [("Note", some (some r))]) = true) :
    ∃ s o d, Schema.parse text = .ok s ∧ s.objects = [o] ∧ o.name = "Note" ∧
      notePipeline.compile text = .ok d ∧ Auth.GuardedBy d "Note" r := by
  have hp : standard noteConfig = .ok notePipeline := rfl
  obtain ⟨s, hparse, hs⟩ := exists_of_any h
  obtain ⟨hok, htypes⟩ := of_decide_eq_true hs
  simp only [List.map_eq_cons_iff, List.map_eq_nil_iff, Prod.mk.injEq] at htypes
  obtain ⟨o, _, hall, ⟨hname, hr⟩, rfl⟩ := htypes
  obtain ⟨d, hd⟩ := Option.isSome_iff_exists.mp hok
  have compiled := toOption_eq_some_iff.mp hd
  have distinct := Schema.nodup_objects (Schema.check_of_parse hparse)
  have guarded := guardedBy_of_compileSchema hp distinct rfl compiled (by simp [hall])
    (toOption_eq_some_iff.mp hr)
  rw [hname] at guarded
  exact ⟨s, o, d, hparse, hall, hname,
    (compile_of_parse (p := notePipeline) hparse).trans compiled, guarded⟩

/-- The second directive of a type can be read, but the group that it names has no part in the
guards, as it has where it stands in the first directive. -/
theorem second_auth_dropped :
    standard noteConfig = .ok notePipeline ∧
      ∃ s o d, Schema.parse splitText = .ok s ∧ s.objects = [o] ∧
        notePipeline.compile splitText = .ok d ∧
        Auth.GuardedBy d "Note" ⟨some "owner", []⟩ ∧
        ¬ Auth.WhollyEnforced o ⟨some "owner", []⟩ ∧
        ∃ d', notePipeline.compile joinedText = .ok d' ∧
          Auth.GuardedBy d' "Note" ⟨some "owner", ["Admin"]⟩ ∧ d ≠ d' := by
  obtain ⟨s, o, d, hparse, hall, hname, compiled, guarded⟩ :=
    exists_guarded splitText ⟨some "owner", []⟩ (by decide +kernel)
  obtain ⟨_, _, d', _, _, _, compiled', guarded'⟩ :=
    exists_guarded joinedText ⟨some "owner", ["Admin"]⟩ (by decide +kernel)
  have heval : (Schema.parse splitText).toOption.any (fun s =>
      s.objects.any fun o => o.directives.any fun a => decide (a.name = "auth" ∧
        (AuthRules.ofArguments a.arguments).toOption = some ⟨none, ["Admin"]⟩)) = true := by
    decide +kernel
  obtain ⟨s', hparse', hs'⟩ := exists_of_any heval
  obtain rfl := Except.ok.inj (hparse.symm.trans hparse')
  rw [hall, List.any_cons, List.any_nil, Bool.or_false] at hs'
  obtain ⟨a, ha, hadmin⟩ := List.any_eq_true.mp hs'
  obtain ⟨hauth, hrules⟩ := of_decide_eq_true hadmin
  refine ⟨rfl, s, o, d, hparse, hall, compiled, guarded, fun enforced => ?_, d', compiled',
    guarded', fun same => ?_⟩
  · obtain ⟨r', hr', _, groups⟩ := enforced.directives a ha hauth
    obtain rfl := Except.ok.inj (hr'.symm.trans (toOption_eq_some_iff.mp hrules))
    exact absurd (groups List.mem_cons_self) List.not_mem_nil
  · have hrequest := guarded.requests .get
    rw [same, guarded'.requests .get, Option.some.injEq, Json.string.injEq] at hrequest
    exact absurd hrequest (by decide +kernel)

end Pipeline

end SchemaStack
