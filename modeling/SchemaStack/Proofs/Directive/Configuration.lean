import SchemaStack.Project.Compilation
import SchemaStack.Proofs.Directive.Foundation
/-!
# What the configuration decides

The name of the API, the capacity of the tables and the user pool are written into properties, and
nothing is asked of these. Two builds that differ in properties only are followed through the stages
side by side: they are refused with the same fault, or they come to have the same resources.
-/

namespace SchemaStack

/-- Computations that fail in the same way, or both have results, which are related. -/
inductive Agree {ε α β : Type} (R : α → β → Prop) : Except ε α → Except ε β → Prop
  | error (e : ε) : Agree R (.error e) (.error e)
  | ok {a : α} {b : β} (h : R a b) : Agree R (.ok a) (.ok b)

namespace Agree

variable {ε α β α' β' : Type} {R : α → β → Prop} {R' : α' → β' → Prop}

lemma or {x : Except ε α} {y : Except ε β} (agree : Agree R x y) :
    (∃ e, x = .error e ∧ y = .error e) ∨ ∃ a b, x = .ok a ∧ y = .ok b ∧ R a b := by
  cases agree with
  | error e => exact Or.inl ⟨e, rfl, rfl⟩
  | ok h => exact Or.inr ⟨_, _, rfl, rfl, h⟩

lemma bind {x : Except ε α} {y : Except ε β} {f : α → Except ε α'} {g : β → Except ε β'}
    (agree : Agree R x y) (h : ∀ a b, R a b → Agree R' (f a) (g b)) :
    Agree R' (x >>= f) (y >>= g) := by
  cases agree with
  | error e => exact .error e
  | ok hab => exact h _ _ hab

lemma map {x : Except ε α} {y : Except ε β} {f : α → α'} {g : β → β'} (agree : Agree R x y)
    (h : ∀ a b, R a b → R' (f a) (g b)) : Agree R' (x.map f) (y.map g) := by
  cases agree with
  | error e => exact .error e
  | ok hab => exact .ok (h _ _ hab)

end Agree

/-! ## Builds that differ in properties only -/

/-- Contributions of the same resources, with other properties, that amend the same resources. -/
structure Contribution.Alike (k k' : Contribution) : Prop where
  outline : outlineOf k.entries = outlineOf k'.entries
  targets : k.amendments.map Amendment.target = k'.amendments.map Amendment.target

namespace Context

structure Alike (c c' : Context) : Prop where
  schema : c.schema = c'.schema
  artifacts : c.artifacts = c'.artifacts
  owners : c.owners = c'.owners
  outline : c.document.outline = c'.document.outline

lemma Alike.ids {c c' : Context} (alike : c.Alike c') : c.document.ids = c'.document.ids := by
  rw [← Document.map_fst_outline, alike.outline, Document.map_fst_outline]

/-- The checks of entries look at IDs only. -/
lemma checkEntries_congr {es es' : Entries Resource} (h : Entries.keys es = Entries.keys es')
    (owners : Entries String) (stage : String) (seen : List String) :
    checkEntries owners stage seen es = checkEntries owners stage seen es' := by
  induction es generalizing es' seen with
  | nil => rw [List.map_eq_nil_iff.mp h.symm]
  | cons e es ih =>
    obtain ⟨⟨_, r⟩, rest, rfl, rfl, hrest⟩ := List.map_eq_cons_iff.mp h.symm
    rw [checkEntries, checkEntries]
    cases owners.get? e.1 with
    | some first => rfl
    | none => rw [ih hrest.symm]

lemma checkAmendments_congr {d d' : Document} {as as' : List Amendment} (hids : d.ids = d'.ids)
    (h : as.map Amendment.target = as'.map Amendment.target) (stage : String) :
    checkAmendments d stage as = checkAmendments d' stage as' := by
  induction as generalizing as' with
  | nil => rw [List.map_eq_nil_iff.mp h.symm]; rfl
  | cons a as ih =>
    obtain ⟨a', rest, rfl, htarget, hrest⟩ := List.map_eq_cons_iff.mp h.symm
    have hcontains : d.contains a.target = d'.contains a'.target := by
      rw [htarget, Bool.eq_iff_iff]
      exact Entries.contains_iff.trans ((iff_of_eq (congrArg (a.target ∈ ·) hids)).trans
        Entries.contains_iff.symm)
    rw [checkAmendments, checkAmendments, hcontains, htarget, ih hrest.symm]

section Merging

variable {c c' : Context} {k k' : Contribution}

lemma keys_entries_of_alike (alikes : k.Alike k') :
    Entries.keys k.entries = Entries.keys k'.entries := by
  have h := congrArg (List.map Prod.fst) alikes.outline
  rwa [outlineOf, outlineOf, List.map_map, List.map_map] at h

lemma Alike.merged (alike : c.Alike c') (alikes : k.Alike k') (stage : String) :
    (c.merged stage k).Alike (c'.merged stage k') where
  schema := alike.schema
  artifacts := alike.artifacts
  owners := by
    have h := congrArg (List.map fun id => (id, stage)) (keys_entries_of_alike alikes)
    rw [Entries.keys, Entries.keys, List.map_map, List.map_map] at h
    exact congrArg₂ (· ++ ·) alike.owners h
  outline := by
    rw [Context.merged, Context.merged, outline_apply, outline_apply, alike.outline, alikes.outline]

lemma Alike.merge (alike : c.Alike c') (alikes : k.Alike k') (stage : String) :
    Agree Alike (c.merge stage k) (c'.merge stage k') := by
  rw [merge_eq, merge_eq, alike.owners, checkEntries_congr (keys_entries_of_alike alikes),
    checkAmendments_congr alike.ids alikes.targets]
  cases checkEntries c'.owners stage [] k'.entries with
  | error e => exact .error e
  | ok _ =>
    cases checkAmendments c'.document stage k'.amendments with
    | error e => exact .error e
    | ok _ => exact .ok (alike.merged alikes stage)

end Merging

end Context

/-- Stages that ask nothing about properties, and contribute the same but for these. -/
structure Stage.Alike (st st' : Stage) : Prop where
  name : st.name = st'.name
  contribute : ∀ c c' : Context, c.Alike c' →
    Agree (fun r r' => r.1 = r'.1 ∧ r.2.Alike r'.2) (st.contribute c) (st'.contribute c')

namespace Pipeline

lemma agree_step {st st' : Stage} (stages : st.Alike st') {c c' : Context} (alike : c.Alike c') :
    Agree Context.Alike (step c st) (step c' st') := by
  refine (stages.contribute c c' alike).bind ?_
  rintro ⟨a, k⟩ ⟨_, k'⟩ ⟨rfl, alikes⟩
  have registered : Context.Alike { c with artifacts := a } { c' with artifacts := a } :=
    ⟨alike.schema, rfl, alike.owners, alike.outline⟩
  rw [stages.name]
  exact registered.merge alikes st'.name

/-- Through such stages, builds that differ in properties only run alike. -/
lemma agree_runFrom {ss ss' : List Stage} (stages : List.Forall₂ Stage.Alike ss ss')
    {c c' : Context} (alike : c.Alike c') :
    Agree Context.Alike (runFrom c ss) (runFrom c' ss') := by
  induction stages generalizing c c' with
  | nil => exact .ok alike
  | cons first _ ih =>
    rw [runFrom, runFrom]
    rcases (agree_step first alike).or with ⟨e, hc, hc'⟩ | ⟨next, next', hc, hc', h⟩
    · rw [hc, hc']
      exact .error e
    · rw [hc, hc']
      exact ih h

end Pipeline

/-! ## The stages after the model types -/

namespace Connection

lemma keys_foldl_addIndex (d d' : Document) (a : Artifacts) (rs : List Relation)
    {ts ts' : Entries TableIndexes} (h : Entries.keys ts = Entries.keys ts') :
    Entries.keys (rs.foldl (addIndex d a) ts) = Entries.keys (rs.foldl (addIndex d' a) ts') := by
  induction rs generalizing ts ts' with
  | nil => exact h
  | cons r rs ih =>
    refine ih ?_
    rw [addIndex, addIndex]
    split
    · rw [Entries.keys_insert, Entries.keys_insert, h]
    · exact h

/-- Both lists of a table are amended. -/
lemma targets_amendments (ts : Entries TableIndexes) :
    (amendments ts).map Amendment.target = (Entries.keys ts).flatMap fun id => [id, id] := by
  rw [amendments, List.map_flatMap, Entries.keys, List.flatMap_map]
  rfl

lemma alike_stage : Connection.stage.Alike Connection.stage := by
  refine ⟨rfl, fun c c' alike => ?_⟩
  change Agree _ (contribute c) (contribute c')
  rw [contribute, contribute, alike.artifacts]
  cases relations c'.artifacts with
  | error e => exact .error _
  | ok rs =>
    refine .ok ⟨rfl, rfl, ?_⟩
    rw [targets_amendments, targets_amendments,
      keys_foldl_addIndex c.document c'.document c'.artifacts rs rfl]

end Connection

namespace Auth

/-- Whether a resolver is guarded is decided by whether it is there. -/
lemma targets_guard {d d' : Document} (hids : d.ids = d'.ids) (rules : AuthRules) (op : Operation)
    (id : String) :
    (guard d rules op id).map Amendment.target = (guard d' rules op id).map Amendment.target := by
  have hsame : d.get? id = none ↔ d'.get? id = none :=
    Entries.get?_eq_none_iff.trans ((not_congr (iff_of_eq (congrArg (id ∈ ·) hids))).trans
      Entries.get?_eq_none_iff.symm)
  rw [guard, guard]
  cases hr : d.get? id with
  | none => rw [hsame.mp hr]
  | some r =>
    cases hr' : d'.get? id with
    | none => rw [hsame.mpr hr'] at hr; cases hr
    | some r' => simp only [List.map_cons]

lemma agree_guards {c c' : Context} (alike : c.Alike c') (os : List ObjectType) :
    Agree (fun as as' => as.map Amendment.target = as'.map Amendment.target) (guards c os)
      (guards c' os) := by
  induction os with
  | nil => exact .ok rfl
  | cons o os ih =>
    rw [guards, guards, alike.artifacts]
    cases AuthRules.ofType? o with
    | error e => exact .error e
    | ok rules =>
      cases rules with
      | none => exact ih
      | some rules =>
        simp only [ok_bind]
        cases c'.artifacts.model? o.name with
        | none => exact .error _
        | some m =>
          refine ih.bind fun as as' htargets => .ok ?_
          have hguards : ∀ r ∈ m.resolvers, (guard c.document rules r.1 r.2).map Amendment.target =
              (guard c'.document rules r.1 r.2).map Amendment.target := fun r _ =>
            targets_guard alike.ids rules r.1 r.2
          rw [List.map_append, List.map_append, htargets, List.map_flatMap, List.map_flatMap,
            List.flatMap_congr hguards]

/-- Which user pool it is shows in a property only. -/
lemma alike_stage (pool pool' : String) : (Auth.stage pool).Alike (Auth.stage pool') := by
  refine ⟨rfl, fun c c' alike => ?_⟩
  change Agree _ (contribute pool c) (contribute pool' c')
  rw [contribute, contribute, alike.artifacts]
  rcases (agree_guards alike c'.artifacts.objectTypes).or with
    ⟨e, hc, hc'⟩ | ⟨as, as', hc, hc', htargets⟩
  · rw [hc, hc']
    exact .error _
  · rw [hc, hc']
    refine .ok ⟨rfl, rfl, ?_⟩
    rw [List.map_append, List.map_append, htargets]
    rfl

end Auth

/-! ## The standard pipeline -/

lemma Api.alike_built (name name' : String) (s : Schema) : (built name s).Alike (built name' s) :=
  ⟨rfl, rfl, rfl, rfl⟩

namespace Model

lemma alike_contribution (config config' : BuildConfig) (s : Schema) :
    (contribution config s).Alike (contribution config' s) where
  outline := by
    rw [contribution, contribution, outlineOf, outlineOf, List.map_flatMap, List.map_flatMap]
    rfl
  targets := rfl

lemma alike_built (name name' : String) (config config' : BuildConfig) (s : Schema) :
    (built name config s).Alike (built name' config' s) := by
  have found : Context.Alike { Api.built name s with artifacts := registered s }
      { Api.built name' s with artifacts := registered s } :=
    ⟨rfl, rfl, rfl, (Api.alike_built name name' s).outline⟩
  exact found.merged (alike_contribution config config' s) "model"

end Model

namespace Pipeline

variable {c c' : BuildConfig} {p p' : Pipeline} {s : Schema}

/-- The stages after the model types that a configuration asks for. -/
def optional (c : BuildConfig) : List Stage :=
  (if c.connections then [Connection.stage] else []) ++ (c.userPool.map Auth.stage).toList

lemma alike_optional (connections : c.connections = c'.connections)
    (pool : c.userPool.isSome = c'.userPool.isSome) :
    List.Forall₂ Stage.Alike (optional c) (optional c') := by
  have relations : List.Forall₂ Stage.Alike (if c.connections then [Connection.stage] else [])
      (if c'.connections then [Connection.stage] else []) := by
    rw [connections]
    split
    · exact .cons Connection.alike_stage .nil
    · exact .nil
  have authorization : List.Forall₂ Stage.Alike (c.userPool.map Auth.stage).toList
      (c'.userPool.map Auth.stage).toList := by
    cases hc : c.userPool <;> cases hc' : c'.userPool
    · exact .nil
    · simp [hc, hc'] at pool
    · simp [hc, hc'] at pool
    · exact .cons (Auth.alike_stage _ _) .nil
  exact List.rel_append relations authorization

lemma compileSchema_eq_optional (hp : standard c = .ok p)
    (distinct : (s.objects.map ObjectType.name).Nodup) :
    p.compileSchema s =
      match p.checkDirectives s with
      | .error e => .error (.schema e)
      | .ok () =>
        match Model.checkAll s.modelTypes with
        | .error e => .error (.schema e)
        | .ok () =>
          (runFrom (Model.built c.apiName c s) (optional c)).map Context.document := by
  have hstages : p.stages = Api.stage c.apiName :: Model.stage c :: optional c := by
    rw [stages_of_standard hp, foundation, List.append_assoc]
    rfl
  rw [compileSchema]
  cases p.checkDirectives s with
  | error e => rfl
  | ok _ =>
    simp only [hstages, runFrom, Api.step_stage c.apiName distinct,
      Model.step_stage c.apiName c distinct]
    cases Model.checkAll s.modelTypes with
    | error e => rfl
    | ok _ => rfl

/-- Configurations that ask for the same stages refuse the same schemas, with the same faults, and
compile the others to the same resources. -/
theorem agree_compileSchema (hp : standard c = .ok p) (hp' : standard c' = .ok p')
    (connections : c.connections = c'.connections)
    (pool : c.userPool.isSome = c'.userPool.isSome)
    (distinct : (s.objects.map ObjectType.name).Nodup) :
    Agree (fun d d' => d.outline = d'.outline) (p.compileSchema s) (p'.compileSchema s) := by
  have hdirectives : p.checkDirectives s = p'.checkDirectives s := by
    rw [checkDirectives, checkDirectives, directives_of_standard hp, directives_of_standard hp',
      connections, pool]
  rw [compileSchema_eq_optional hp distinct, compileSchema_eq_optional hp' distinct, hdirectives]
  cases p'.checkDirectives s with
  | error e => exact .error _
  | ok _ =>
    cases Model.checkAll s.modelTypes with
    | error e => exact .error _
    | ok _ =>
      have built := Model.alike_built c.apiName c'.apiName c c' s
      exact (agree_runFrom (alike_optional connections pool) built).map
        fun _ _ => Context.Alike.outline

end Pipeline

namespace Compilation

theorem agree_compileText {c c' : BuildConfig} (connections : c.connections = c'.connections)
    (pool : c.userPool.isSome = c'.userPool.isSome) (text : String) :
    Agree (fun d d' => d.outline = d'.outline) (compileText c text) (compileText c' text) := by
  obtain ⟨p, hp⟩ := Pipeline.exists_standard c
  obtain ⟨p', hp'⟩ := Pipeline.exists_standard c'
  simp only [compileText, hp, hp']
  cases hparse : Schema.parse text with
  | error e =>
    rw [Pipeline.compile, Pipeline.compile, hparse]
    exact .error _
  | ok s =>
    rw [Pipeline.compile_of_parse hparse, Pipeline.compile_of_parse hparse]
    exact Pipeline.agree_compileSchema hp hp' connections pool
      (Schema.nodup_objects (Schema.check_of_parse hparse))

end Compilation

end SchemaStack
