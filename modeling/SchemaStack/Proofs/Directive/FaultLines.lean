import SchemaStack.Proofs.Directive.ResourceList
import SchemaStack.Proofs.Schema.FaultLines
/-!
# The lines of faults of directives

A stage that comes with the compiler sees the schema through the object types that have been
registered, and complains about a directive, a field or a type of theirs on the line that it was
read on. The only stage that registers types takes them from the schema. So from stage to stage,
all types are on lines of the text, and so is every complaint.
-/

namespace SchemaStack

/-- If the schema is to blame, then on one of the lines. -/
def BuildError.On (lines : Nat → Prop) : BuildError → Prop
  | .schema e => e.On lines
  | .collision .. => True
  | .pipeline _ => True
  | .amendment .. => True

/-- The registered types come from the source. -/
def Artifacts.From (source : Source) (a : Artifacts) : Prop := ∀ o ∈ a.objectTypes, o.From source

/-- The schema and the registered types come from the source. -/
structure Context.From (source : Source) (c : Context) : Prop where
  schema : c.schema.From source
  artifacts : c.artifacts.From source

/-- A refusal, if it is one, is on one of the lines of the source. -/
abbrev Located {α : Type} (source : Source) : Except SchemaError α → Prop :=
  Outcome (SchemaError.On source.line) fun _ => True

variable {source : Source} {o target : ObjectType} {f : Field} {d : Directive}

lemma from_of_directiveNamed? {ds : List Directive} {name : String}
    (h : ∀ d ∈ ds, d.From source) (hd : directiveNamed? ds name = some d) : d.From source :=
  h d (List.mem_of_find?_eq_some hd)

/-! ## Directives without a meaning -/

namespace Pipeline

lemma located_checkDirective (handled : List DirectiveSpec) (location : Location)
    (h : d.From source) : Located source (checkDirective handled location d) := by
  rw [checkDirective]
  split
  · exact Fault.onLine_on _ h.line
  · split
    · exact trivial
    · exact Fault.onLine_on _ h.line

lemma located_checkAll {handled : List DirectiveSpec} {ds : List (Location × Directive)}
    (h : ∀ d ∈ ds, d.2.From source) : Located source (checkAll handled ds) := by
  induction ds with
  | nil => exact trivial
  | cons d ds ih =>
    rw [List.forall_mem_cons] at h
    rw [checkAll]
    split
    · rename_i e he
      exact (located_checkDirective handled d.1 h.1).error he
    · exact ih h.2

lemma from_of_mem_directivesOf (h : o.From source) : ∀ d ∈ directivesOf o, d.2.From source := by
  intro d hd
  rcases List.mem_append.mp hd with hd | hd
  · obtain ⟨d', hd', rfl⟩ := List.mem_map.mp hd
    exact h.directives d' hd'
  · obtain ⟨f, hf, hd⟩ := List.mem_flatMap.mp hd
    obtain ⟨d', hd', rfl⟩ := List.mem_map.mp hd
    exact (h.fields f hf).directives d' hd'

/-- A directive without a meaning is at fault on its own line. -/
lemma located_checkDirectives (p : Pipeline) {s : Schema} (h : s.From source) :
    Located source (p.checkDirectives s) := by
  refine located_checkAll fun d hd => ?_
  obtain ⟨o, ho, hd⟩ := List.mem_flatMap.mp hd
  exact from_of_mem_directivesOf (h.objects o ho) d hd

end Pipeline

/-! ## Model types -/

namespace Model

lemma located_check (h : o.From source) : Located source (check o) := by
  have located_checkId : Located source (check.checkId o) := by
    rw [check.checkId]
    split
    · exact trivial
    · exact Fault.onLine_on _ h.line
  rw [check]
  split
  · rename_i d hd
    split
    · exact Fault.onLine_on _ (from_of_directiveNamed? h.directives hd).line
    · exact located_checkId
  · exact located_checkId

lemma located_checkAll {os : List ObjectType} (h : ∀ o ∈ os, o.From source) :
    Located source (checkAll os) := by
  induction os with
  | nil => exact trivial
  | cons o os ih =>
    rw [List.forall_mem_cons] at h
    rw [checkAll]
    split
    · rename_i e he
      exact (located_check h.1).error he
    · exact ih h.2

end Model

/-! ## Relations -/

namespace Connection

variable {a : Artifacts}

lemma located_fail {α : Type} (f : ConnectionFault) {line : Nat} (h : source.line line) :
    Located source (fail f line : Except SchemaError α) := Fault.onLine_on _ h

lemma located_name? (o : ObjectType) (h : f.From source) : Located source (name? o f) := by
  rw [name?]
  split
  · exact trivial
  · rename_i d hd
    have hline := (from_of_directiveNamed? h.directives hd).line
    split
    · exact located_fail _ hline
    · split
      · exact trivial
      · split
        · exact located_fail _ hline
        · exact trivial

/-- By induction on the fields of the target, in which a list can have arguments that are not in
order. -/
lemma located_pairedList? (target : ObjectType) (parent name : String) {fs : List Field}
    (h : ∀ f ∈ fs, f.From source) : Located source (pairedList? target parent name fs) := by
  induction fs with
  | nil => exact trivial
  | cons f fs ih =>
    rw [List.forall_mem_cons] at h
    rw [pairedList?]
    split
    · split
      · rename_i e he
        exact (located_name? target h.1).error he
      · split
        · exact trivial
        · exact ih h.2
    · exact ih h.2

lemma located_resolveList (o target : ObjectType) (name : Option String) (h : f.From source) :
    Located source (resolveList o target f name) := by
  rw [resolveList]
  split
  · split
    · exact located_fail _ h.line
    · exact trivial
  · exact trivial

lemma located_resolveSingle (o : ObjectType) (f : Field) (name : Option String)
    (h : target.From source) : Located source (resolveSingle o target f name) := by
  cases name with
  | none => exact trivial
  | some n =>
    refine outcome_bind (located_pairedList? target o.name n h.fields) fun _ _ => ?_
    exact trivial

/-- A relation can be at fault in its own field or in the fields of its target. -/
lemma located_resolve (ha : a.From source) (o : ObjectType) (h : f.From source) :
    Located source (resolve a o f) := by
  rw [resolve]
  split
  · exact located_fail _ h.line
  · split
    · rename_i _ target _ htarget
      have hfrom := ha _ (List.mem_map_of_mem (Entries.mem_of_get? htarget))
      refine outcome_bind (located_name? o h) fun name _ => ?_
      split
      · exact located_resolveList o target name h
      · exact located_resolveSingle o f name hfrom
    · exact located_fail _ h.line

/-- By induction on the fields, with the owners of the indexes so far. -/
lemma located_relationsFrom (ha : a.From source) {fs : List (ObjectType × Field)}
    (h : ∀ f ∈ fs, f.2.From source) (owners : List ((String × String) × String)) :
    Located source (relationsFrom a owners fs) := by
  induction fs generalizing owners with
  | nil => exact trivial
  | cons f fs ih =>
    obtain ⟨o, f⟩ := f
    rw [List.forall_mem_cons] at h
    rw [relationsFrom]
    refine outcome_bind (located_resolve ha o h.1) fun r _ => ?_
    split
    · exact outcome_bind (ih h.2 _) fun _ _ => trivial
    · dsimp only
      split
      · exact located_fail _ h.1.line
      · exact outcome_bind (ih h.2 _) fun _ _ => trivial

lemma located_relations (ha : a.From source) : Located source (relations a) := by
  refine located_relationsFrom ha (fun f hf => ?_) []
  obtain ⟨o, ho, hf⟩ := List.mem_flatMap.mp hf
  obtain ⟨f, hmem, rfl⟩ := List.mem_map.mp hf
  exact (ha o ho).fields f (List.mem_of_mem_filter hmem)

end Connection

/-! ## Authorization -/

lemma AuthRules.located_ofType? (h : o.From source) : Located source (AuthRules.ofType? o) := by
  rw [AuthRules.ofType?]
  split
  · exact trivial
  · rename_i d hd
    split
    · exact Fault.onLine_on _ (from_of_directiveNamed? h.directives hd).line
    · exact trivial

lemma Auth.located_guards (c : Context) {os : List ObjectType} (h : ∀ o ∈ os, o.From source) :
    Located source (Auth.guards c os) := by
  induction os with
  | nil => exact trivial
  | cons o os ih =>
    rw [List.forall_mem_cons] at h
    rw [Auth.guards]
    refine outcome_bind (AuthRules.located_ofType? h.1) fun rules _ => ?_
    split
    · exact ih h.2
    · split
      · exact Fault.onLine_on _ h.1.line
      · exact outcome_bind (ih h.2) fun _ _ => trivial

/-! ## Stages -/

namespace Artifacts

variable {a : Artifacts}

lemma From.registerTypes (ha : a.From source) {s : Schema} (hs : s.From source) :
    (a.registerTypes s).From source := by
  have types : ∀ {os : List ObjectType} {ts : Entries ObjectType},
      (∀ o ∈ os, o.From source) → (∀ e ∈ ts, e.2.From source) →
        ∀ e ∈ os.foldl (fun ts o => ts.insert o.name o) ts, e.2.From source := by
    intro os
    induction os with
    | nil => exact fun _ hts => hts
    | cons o os ih =>
      intro ts hos hts
      rw [List.forall_mem_cons] at hos
      refine ih hos.2 fun e he => ?_
      rcases Entries.mem_of_mem_insert he with he | rfl
      · exact hts e he
      · exact hos.1
  intro o ho
  obtain ⟨e, he, rfl⟩ := List.mem_map.mp ho
  exact types hs.objects (fun e he => ha _ (List.mem_map_of_mem he)) e he

/-- Models are registered beside the types. -/
lemma types_foldl_registerModel (os : List ObjectType) (a : Artifacts) :
    (os.foldl (fun a o => a.registerModel (Model.ofType o.name)) a).types = a.types := by
  induction os generalizing a with
  | nil => rfl
  | cons o os ih => exact ih _

lemma types_foldl_registerConnection (es : List (String × Resource)) (a : Artifacts) :
    (es.foldl (fun a e => a.registerConnection e.1) a).types = a.types := by
  induction es generalizing a with
  | nil => rfl
  | cons e es ih => exact ih _

/-- Of what is registered only the types have lines. -/
lemma From.of_types {a' : Artifacts} (ha : a.From source) (same : a'.types = a.types) :
    a'.From source := by
  rwa [From, objectTypes, same]

end Artifacts

namespace Pipeline

variable {c : Context}

lemma outcome_schemaAmendments (lines : Nat → Prop) (c : Context) (os : List ObjectType) :
    Outcome (BuildError.On lines) (fun _ => True) (Model.schemaAmendments c os) := by
  rw [Model.schemaAmendments]
  split
  · exact trivial
  · split
    · exact trivial
    · exact trivial

/-- A built-in stage registers nothing from elsewhere, and its faults are on the lines of the types.
-/
lemma outcome_contribute {st : Stage} (builtIn : BuiltIn st) (h : c.From source) :
    Outcome (BuildError.On source.line) (fun r => r.1.From source) (st.contribute c) := by
  rcases builtIn.cases with ⟨name, rfl⟩ | ⟨config, rfl⟩ | rfl | ⟨pool, rfl⟩
  · exact h.artifacts.registerTypes h.schema
  · change Outcome _ _ (Model.contribute config c)
    rw [Model.contribute]
    split
    · rename_i e he
      refine (Model.located_checkAll fun o ho => h.artifacts o ?_).error he
      exact List.mem_of_mem_filter ho
    · refine outcome_bind (outcome_schemaAmendments _ c _) fun _ _ => ?_
      exact h.artifacts.of_types (Artifacts.types_foldl_registerModel _ _)
  · change Outcome _ _ (Connection.contribute c)
    rw [Connection.contribute]
    split
    · rename_i e he
      exact (Connection.located_relations h.artifacts).error he
    · exact h.artifacts.of_types (Artifacts.types_foldl_registerConnection _ _)
  · change Outcome _ _ (Auth.contribute pool c)
    rw [Auth.contribute]
    split
    · rename_i e he
      exact (Auth.located_guards c h.artifacts).error he
    · exact h.artifacts

lemma outcome_checkEntries (lines : Nat → Prop) (owners : Entries String) (stage : String)
    (seen : List String) (es : List (String × Resource)) :
    Outcome (BuildError.On lines) (fun _ => True)
      (Context.checkEntries owners stage seen es) := by
  induction es generalizing seen with
  | nil => exact trivial
  | cons e es ih =>
    rw [Context.checkEntries]
    split
    · exact trivial
    · split
      · exact trivial
      · exact ih _

lemma outcome_checkAmendments (lines : Nat → Prop) (document : Document) (stage : String)
    (as : List Amendment) :
    Outcome (BuildError.On lines) (fun _ => True)
      (Context.checkAmendments document stage as) := by
  induction as with
  | nil => exact trivial
  | cons a as ih =>
    rw [Context.checkAmendments]
    split
    · exact ih
    · exact trivial

/-- A stage complains on one of the lines, or the types stay on them. -/
lemma outcome_step {st : Stage} (builtIn : BuiltIn st) (h : c.From source) :
    Outcome (BuildError.On source.line) (Context.From source) (step c st) := by
  refine outcome_bind (outcome_contribute builtIn h) fun r hr => ?_
  refine outcome_bind (outcome_checkEntries _ _ _ _ _) fun _ _ => ?_
  exact outcome_bind (outcome_checkAmendments _ _ _ _) fun _ _ => ⟨h.schema, hr⟩

/-- By induction on the stages. -/
lemma outcome_runFrom {stages : List Stage} (builtIn : ∀ st ∈ stages, BuiltIn st)
    (h : c.From source) :
    Outcome (BuildError.On source.line) (Context.From source) (runFrom c stages) := by
  induction stages generalizing c with
  | nil => exact h
  | cons st stages ih =>
    rw [List.forall_mem_cons] at builtIn
    rw [runFrom]
    split
    · rename_i e he
      exact (outcome_step builtIn.1 h).error he
    · rename_i c' hc
      exact ih builtIn.2 ((outcome_step builtIn.1 h).ok hc)

lemma outcome_compileSchema {p : Pipeline} (builtIn : ∀ st ∈ p.stages, BuiltIn st) {s : Schema}
    (h : s.From source) :
    Outcome (BuildError.On source.line) (fun _ => True) (p.compileSchema s) := by
  rw [compileSchema]
  split
  · rename_i e he
    exact (located_checkDirectives p h).error he
  · have start : (Context.start s).From source :=
      ⟨h, fun o ho => absurd ho List.not_mem_nil⟩
    exact outcome_map (outcome_runFrom builtIn start) fun _ _ => trivial

lemma outcome_compile {p : Pipeline} (builtIn : ∀ st ∈ p.stages, BuiltIn st) (text : String) :
    Outcome (BuildError.On (Lexer.LinesOf 1 text.toList)) (fun _ => True) (p.compile text) := by
  rw [compile]
  split
  · rename_i e he
    exact (Schema.outcome_parse text).error he
  · rename_i s hs
    exact outcome_compileSchema builtIn ((Schema.outcome_parse text).ok hs)

/-- Every token of a text is on the line of its first character, and wherever a list of stages that
come with the compiler blames the text, it names one of its lines. -/
theorem faults_on_lines (text : String) :
    (∀ ls, Lexer.tokens text = .ok ls → Lexer.Laid [] text.toList ls) ∧
      ∀ stages, (∀ st ∈ stages, BuiltIn st) →
        ∀ e, (do let p ← ofStages stages; p.compile text) = .error (.schema e) →
          ∃ line, e.line = some line ∧ 1 ≤ line ∧ line ≤ 1 + text.toList.count '\n' := by
  refine ⟨fun ls => Lexer.laid_of_tokens, fun stages builtIn e h => ?_⟩
  have accepted : Outcome (BuildError.On (Lexer.LinesOf 1 text.toList))
      (fun p => p.stages = stages) (ofStages stages) := by
    rw [ofStages]
    split
    · exact trivial
    · rfl
  have on : (BuildError.schema e).On (Lexer.LinesOf 1 text.toList) :=
    (outcome_bind accepted fun p hp => outcome_compile (hp ▸ builtIn) text).error h
  exact on

/-- A description over four lines, a comment, and a type with a directive that has no meaning where
only the API is built. -/
def describedText : String :=
  "\"\"\"\nA\nnote\n\"\"\"\n# \"\ntype Note\n  @model \x7b id: ID! \x7d"

theorem faults_on_lines_described :
    let refused := (Fault.directive (.unsupported "model")).onLine 7
    (∃ ls, Lexer.tokens describedText = .ok ls ∧ Lexer.Laid [] describedText.toList ls ∧
      ls.map Lexeme.line = [1, 6, 6, 7, 7, 7, 7, 7, 7, 7, 7]) ∧
    (do let p ← ofStages [Api.stage "notes"]; p.compile describedText) =
      .error (.schema refused) ∧
    ∃ line, refused.line = some line ∧ 1 ≤ line ∧
      line ≤ 1 + describedText.toList.count '\n' := by
  intro refused
  obtain ⟨laid, located⟩ := faults_on_lines describedText
  have builtIn : ∀ st ∈ [Api.stage "notes"], BuiltIn st := by
    intro st hst
    obtain rfl := List.mem_singleton.mp hst
    exact ⟨{ apiName := "notes" }, .api, rfl⟩
  have hlines : (Lexer.tokens describedText).toOption.any (fun ls =>
      ls.map Lexeme.line = [1, 6, 6, 7, 7, 7, 7, 7, 7, 7, 7]) = true := by decide +kernel
  obtain ⟨ls, htokens, hls⟩ := exists_of_any hlines
  have herror : (match do let p ← ofStages [Api.stage "notes"]; p.compile describedText with
      | .error e => some e
      | .ok _ => none) = some (.schema refused) := by decide +kernel
  cases hcompile : (do let p ← ofStages [Api.stage "notes"]; p.compile describedText) with
  | error e =>
    rw [hcompile] at herror
    obtain rfl := Option.some.inj herror
    exact ⟨⟨ls, htokens, laid ls htokens, of_decide_eq_true hls⟩, rfl,
      located _ builtIn refused hcompile⟩
  | ok d =>
    rw [hcompile] at herror
    cases herror

end Pipeline

end SchemaStack
