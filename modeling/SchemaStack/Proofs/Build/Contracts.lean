import SchemaStack.Build.Pipeline
import Mathlib.Data.List.Induction
import Mathlib.Data.List.Nodup
import Mathlib.Tactic.Common
/-!
# The contracts of stages

A stage stands in its place if no earlier stage has its name, if earlier stages provide what it
requires, and if nothing follows it where it is terminal. A list of stages is a pipeline exactly
when each of them does, and otherwise the first that does not is at fault. So a stage that requires
nothing and is not terminal may be put in anywhere before the last one.
-/

namespace SchemaStack.Pipeline

/-- What is asked of a stage that comes after stages with these names, which provide this much. -/
@[mk_iff admits_iff]
structure Admits (names : List String) (provided : List Capability) (st : Stage)
    (after : List Stage) : Prop where
  fresh : st.name ∉ names
  supplied : ∀ c ∈ st.requires, c ∈ provided
  last : st.terminal → after = []

/-- The fault of a stage. Its name counts before what it requires, and this before its place. Of
the capabilities that it requires, the first that is missing counts. -/
inductive Objection (names : List String) (provided : List Capability) (st : Stage)
    (after : List Stage) : PipelineFault → Prop
  | repeatedStage : st.name ∈ names → Objection names provided st after (.repeatedStage st.name)
  | missingCapability {met later : List Capability} {c : Capability} :
      st.name ∉ names → st.requires = met ++ c :: later → (∀ c' ∈ met, c' ∈ provided) →
      c ∉ provided → Objection names provided st after (.missingCapability st.name c)
  | notLast : st.name ∉ names → (∀ c ∈ st.requires, c ∈ provided) → st.terminal → after ≠ [] →
      Objection names provided st after (.notLast st.name)

/-- The contracts of a whole list. -/
structure Contracted (stages : List Stage) : Prop where
  distinct : (stages.map Stage.name).Nodup
  supplied : ∀ before st after, stages = before ++ st :: after →
    ∀ c ∈ st.requires, ∃ t ∈ before, c ∈ t.provides
  last : ∀ before st after, stages = before ++ st :: after → st.terminal → after = []

/-- A stage in its place among others. -/
def Placed (before : List Stage) (st : Stage) (after : List Stage) : Prop :=
  Admits (before.map Stage.name) (before.flatMap Stage.provides) st after

/-- The fault of a list: that of its first stage that does not stand in its place. -/
def Faulty (stages : List Stage) (f : PipelineFault) : Prop :=
  ∃ before st after, stages = before ++ st :: after ∧
    (∀ b t a, before = b ++ t :: a → Placed b t (a ++ st :: after)) ∧
    Objection (before.map Stage.name) (before.flatMap Stage.provides) st after f

/-! ## One stage -/

variable {names : List String} {provided : List Capability} {st : Stage} {ss : List Stage}

/-- Checking goes on behind a stage that stands in its place, and stops at any other. -/
lemma checkFrom_cons_cases (names : List String) (provided : List Capability) (st : Stage)
    (ss : List Stage) :
    (Admits names provided st ss ∧
        checkFrom names provided (st :: ss) =
          checkFrom (st.name :: names) (st.provides ++ provided) ss) ∨
      ∃ f, Objection names provided st ss f ∧ checkFrom names provided (st :: ss) = .error f := by
  rw [checkFrom]
  by_cases hname : st.name ∈ names
  · exact Or.inr ⟨_, .repeatedStage hname, if_pos (by simpa using hname)⟩
  · rw [if_neg (by simpa using hname)]
    cases hfind : st.requires.find? fun c => !provided.contains c with
    | some c =>
      obtain ⟨hc, met, later, hsplit, hmet⟩ := List.find?_eq_some_iff_append.mp hfind
      exact Or.inr ⟨_, .missingCapability hname hsplit (by simpa using hmet) (by simpa using hc),
        rfl⟩
    | none =>
      have supplied : ∀ c ∈ st.requires, c ∈ provided := by
        simpa using List.find?_eq_none.mp hfind
      by_cases hlast : st.terminal = true ∧ ss ≠ []
      · exact Or.inr ⟨_, .notLast hname supplied hlast.1 hlast.2, if_pos (by simpa using hlast)⟩
      · refine Or.inl ⟨⟨hname, supplied, fun hterminal => ?_⟩, if_neg (by simpa using hlast)⟩
        exact not_not.mp fun hss => hlast ⟨hterminal, hss⟩

lemma Objection.not_admits {f : PipelineFault} (objection : Objection names provided st ss f) :
    ¬ Admits names provided st ss := by
  intro admits
  cases objection with
  | repeatedStage hname => exact admits.fresh hname
  | missingCapability _ hsplit _ hc => exact hc (admits.supplied _ (by simp [hsplit]))
  | notLast _ _ hterminal hss => exact hss (admits.last hterminal)

lemma checkFrom_cons_eq_ok_iff :
    checkFrom names provided (st :: ss) = .ok () ↔
      st.name ∉ names ∧ (∀ c ∈ st.requires, c ∈ provided) ∧ (st.terminal → ss = []) ∧
        checkFrom (st.name :: names) (st.provides ++ provided) ss = .ok () := by
  rcases checkFrom_cons_cases names provided st ss with ⟨admits, heq⟩ | ⟨f, objection, heq⟩
  · rw [heq]
    exact ⟨fun h => ⟨admits.fresh, admits.supplied, admits.last, h⟩, fun h => h.2.2.2⟩
  · rw [heq]
    constructor
    · intro h
      cases h
    · rintro ⟨fresh, supplied, last, _⟩
      exact absurd ⟨fresh, supplied, last⟩ objection.not_admits

/-! ## The rest of a list -/

/-- What checking remembers of the stages that it has seen. -/
structure Seen (past : List Stage) (names : List String) (provided : List Capability) : Prop where
  names : ∀ n, n ∈ names ↔ n ∈ past.map Stage.name
  provided : ∀ c, c ∈ provided ↔ c ∈ past.flatMap Stage.provides

lemma seen_nil : Seen [] [] [] := ⟨fun _ => Iff.rfl, fun _ => Iff.rfl⟩

namespace Seen

variable {past : List Stage}

lemma snoc (seen : Seen past names provided) (st : Stage) :
    Seen (past ++ [st]) (st.name :: names) (st.provides ++ provided) where
  names n := by simp [seen.names, or_comm]
  provided c := by simp [seen.provided, or_comm]

lemma admits_iff_placed (seen : Seen past names provided) :
    Admits names provided st ss ↔ Placed past st ss := by
  simp only [Placed, admits_iff, seen.names, seen.provided]

lemma objection (seen : Seen past names provided) {f : PipelineFault}
    (h : Objection names provided st ss f) :
    Objection (past.map Stage.name) (past.flatMap Stage.provides) st ss f := by
  have fresh : st.name ∉ names → st.name ∉ past.map Stage.name := mt (seen.names _).mpr
  cases h with
  | repeatedStage hname => exact .repeatedStage ((seen.names _).mp hname)
  | missingCapability hname hsplit hmet hc =>
    exact .missingCapability (fresh hname) hsplit
      (fun c' hc' => (seen.provided c').mp (hmet c' hc')) (mt (seen.provided _).mpr hc)
  | notLast hname hall hterminal hss =>
    exact .notLast (fresh hname) (fun c hc => (seen.provided c).mp (hall c hc)) hterminal hss

end Seen

/-- The places of a list are its first place and those of the rest. -/
lemma forall_split_cons {P : List Stage → Stage → List Stage → Prop} :
    (∀ b t a, st :: ss = b ++ t :: a → P b t a) ↔
      P [] st ss ∧ ∀ b t a, ss = b ++ t :: a → P (st :: b) t a := by
  constructor
  · intro h
    exact ⟨h [] st ss rfl, fun b t a hsplit => h (st :: b) t a (by rw [hsplit]; rfl)⟩
  · rintro ⟨first, rest⟩ b t a hsplit
    cases b with
    | nil =>
      obtain ⟨rfl, rfl⟩ := List.cons.inj hsplit
      exact first
    | cons t' b =>
      obtain ⟨rfl, rfl⟩ := List.cons.inj hsplit
      exact rest b t a rfl

/-- The check of a rest succeeds if every stage stands in its place, and otherwise reports the
first that does not. -/
lemma checkFrom_cases {past : List Stage} (seen : Seen past names provided) (ss : List Stage) :
    (checkFrom names provided ss = .ok () ∧
        ∀ b t a, ss = b ++ t :: a → Placed (past ++ b) t a) ∨
      ∃ f before st after, checkFrom names provided ss = .error f ∧ ss = before ++ st :: after ∧
        (∀ b t a, before = b ++ t :: a → Placed (past ++ b) t (a ++ st :: after)) ∧
        Objection ((past ++ before).map Stage.name) ((past ++ before).flatMap Stage.provides)
          st after f := by
  induction ss generalizing past names provided with
  | nil => exact Or.inl ⟨rfl, by simp⟩
  | cons st ss ih =>
    rcases checkFrom_cons_cases names provided st ss with ⟨admits, heq⟩ | ⟨f, objection, heq⟩
    · have first : Placed past st ss := seen.admits_iff_placed.mp admits
      rw [heq]
      rcases ih (seen.snoc st) with ⟨hok, rest⟩ | ⟨f, before, t, after, herror, rfl, rest, hf⟩
      · refine Or.inl ⟨hok, forall_split_cons.mpr ⟨by simpa using first, ?_⟩⟩
        intro b t a hsplit
        simpa using rest b t a hsplit
      · refine Or.inr ⟨f, st :: before, t, after, herror, rfl, ?_, by simpa using hf⟩
        refine forall_split_cons.mpr ⟨by simpa using first, ?_⟩
        intro b t' a hsplit
        simpa using rest b t' a hsplit
    · refine Or.inr ⟨f, [], st, ss, heq, rfl, by simp, ?_⟩
      simpa using seen.objection objection

/-! ## Whole lists -/

lemma nodup_names_iff {stages : List Stage} :
    (stages.map Stage.name).Nodup ↔
      ∀ before st after, stages = before ++ st :: after → st.name ∉ before.map Stage.name := by
  constructor
  · rintro distinct before st after rfl hmem
    rw [List.map_append, List.map_cons, List.nodup_append] at distinct
    exact distinct.2.2 _ hmem _ List.mem_cons_self rfl
  · intro fresh
    induction stages using List.reverseRecOn with
    | nil => exact List.nodup_nil
    | append_singleton ss st ih =>
      have hst := fresh ss st [] rfl
      have hrest := ih fun before t after hsplit =>
        fresh before t (after ++ [st]) (by rw [hsplit, List.append_assoc, List.cons_append])
      rw [List.map_append]
      exact List.nodup_append.mpr ⟨hrest, by simp, by simpa using hst⟩

lemma contracted_iff {stages : List Stage} :
    Contracted stages ↔ ∀ before st after, stages = before ++ st :: after →
      Placed before st after := by
  have hprovided : ∀ (before : List Stage) (c : Capability),
      c ∈ before.flatMap Stage.provides ↔ ∃ t ∈ before, c ∈ t.provides :=
    fun _ _ => List.mem_flatMap
  constructor
  · intro h before st after hsplit
    exact ⟨nodup_names_iff.mp h.distinct before st after hsplit,
      fun c hc => (hprovided before c).mpr (h.supplied before st after hsplit c hc),
      h.last before st after hsplit⟩
  · intro h
    exact ⟨nodup_names_iff.mpr fun before st after hsplit => (h before st after hsplit).fresh,
      fun before st after hsplit c hc =>
        (hprovided before c).mp ((h before st after hsplit).supplied c hc),
      fun before st after hsplit => (h before st after hsplit).last⟩

lemma check_cases (stages : List Stage) :
    (check stages = .ok () ∧ Contracted stages) ∨
      ∃ f, check stages = .error f ∧ Faulty stages f ∧ ¬ Contracted stages := by
  rcases checkFrom_cases seen_nil stages with ⟨hok, hall⟩ | ⟨f, before, st, after, he, hs, hall, hf⟩
  · exact Or.inl ⟨hok, contracted_iff.mpr hall⟩
  · refine Or.inr ⟨f, he, ⟨before, st, after, hs, hall, hf⟩, fun contracted => ?_⟩
    exact hf.not_admits (contracted_iff.mp contracted before st after hs)

/-- The stages of a pipeline keep the contracts. -/
lemma contracted (p : Pipeline) : Contracted p.stages := by
  rcases check_cases p.stages with ⟨_, contracted⟩ | ⟨f, he, _⟩
  · exact contracted
  · cases p.accepted.symm.trans he

/-! ## One more stage -/

/-- The places of a list with one more stage are those before it, its own and those behind it. -/
lemma split_insert_cases {before after b a : List Stage} {t : Stage}
    (h : before ++ st :: after = b ++ t :: a) :
    (∃ a', before = b ++ t :: a' ∧ a = a' ++ st :: after) ∨ (b = before ∧ t = st ∧ a = after) ∨
      ∃ b', b = before ++ st :: b' ∧ after = b' ++ t :: a := by
  rcases List.append_eq_append_iff.mp h with ⟨b', hb, htail⟩ | ⟨a', hbefore, htail⟩
  · cases b' with
    | nil =>
      obtain ⟨rfl, rfl⟩ := List.cons.inj htail
      exact Or.inr (Or.inl ⟨by simpa using hb, rfl, rfl⟩)
    | cons t' b' =>
      obtain ⟨rfl, rfl⟩ := List.cons.inj htail
      exact Or.inr (Or.inr ⟨b', hb, rfl⟩)
  · cases a' with
    | nil =>
      obtain ⟨rfl, rfl⟩ := List.cons.inj htail
      exact Or.inr (Or.inl ⟨by simpa using hbefore.symm, rfl, rfl⟩)
    | cons t' a' =>
      obtain ⟨rfl, rfl⟩ := List.cons.inj htail
      exact Or.inl ⟨a', hbefore, rfl⟩

/-- More stages provide more, so the others keep their contracts. -/
lemma Contracted.insert {before after : List Stage} (contracted : Contracted (before ++ after))
    (inside : after ≠ []) (fresh : st.name ∉ (before ++ after).map Stage.name)
    (free : st.requires = []) (passing : st.terminal = false) :
    Contracted (before ++ st :: after) where
  distinct := by
    rw [List.map_append, List.map_cons, List.nodup_middle, ← List.map_append]
    exact List.nodup_cons.mpr ⟨fresh, contracted.distinct⟩
  supplied := by
    intro b t a hsplit c hc
    rcases split_insert_cases hsplit with ⟨a', rfl, rfl⟩ | ⟨rfl, rfl, rfl⟩ | ⟨b', rfl, rfl⟩
    · exact contracted.supplied b t (a' ++ after) (by simp) c hc
    · rw [free] at hc
      cases hc
    · obtain ⟨t', ht', hprovides⟩ := contracted.supplied (before ++ b') t a (by simp) c hc
      refine ⟨t', ?_, hprovides⟩
      rcases List.mem_append.mp ht' with ht' | ht'
      · exact List.mem_append_left _ ht'
      · exact List.mem_append_right _ (List.mem_cons_of_mem _ ht')
  last := by
    intro b t a hsplit hterminal
    rcases split_insert_cases hsplit with ⟨a', rfl, rfl⟩ | ⟨rfl, rfl, rfl⟩ | ⟨b', rfl, rfl⟩
    · have hnil := contracted.last b t (a' ++ after) (by simp) hterminal
      exact absurd (List.append_eq_nil_iff.mp hnil).2 inside
    · rw [passing] at hterminal
      cases hterminal
    · exact contracted.last (before ++ b') t a (by simp) hterminal

/-! ## Pipelines -/

lemma ofStages_cases (stages : List Stage) :
    (Contracted stages ∧ ∃ p, ofStages stages = .ok p ∧ p.stages = stages) ∨
      ¬ Contracted stages ∧ ∃ f, ofStages stages = .error (.pipeline f) ∧ Faulty stages f := by
  rw [ofStages]
  rcases check_cases stages with ⟨hok, contracted⟩ | ⟨f, herror, faulty, broken⟩
  · split
    · next f herror => cases hok.symm.trans herror
    · exact Or.inl ⟨contracted, _, rfl, rfl⟩
  · split
    · next f' herror' =>
      obtain rfl := Except.error.inj (herror.symm.trans herror')
      exact Or.inr ⟨broken, f, rfl, faulty⟩
    · next hok => cases herror.symm.trans hok

/-- A list of stages is a pipeline exactly when it keeps the contracts, and otherwise the fault is
that of the first stage that does not stand in its place. A stage with a new name that requires
nothing and is not terminal can stand anywhere before the last one. -/
theorem ofStages_keeps_contracts (stages : List Stage) :
    ((∃ p, ofStages stages = .ok p) ↔ Contracted stages) ∧
      (∀ p, ofStages stages = .ok p → p.stages = stages) ∧
      (∀ e, ofStages stages = .error e → ∃ f, e = .pipeline f ∧ Faulty stages f) ∧
      ∀ before after st, stages = before ++ after → after ≠ [] →
        (∃ p, ofStages stages = .ok p) → st.name ∉ stages.map Stage.name → st.requires = [] →
        st.terminal = false →
        ∃ q, ofStages (before ++ st :: after) = .ok q ∧ q.stages = before ++ st :: after := by
  rcases ofStages_cases stages with ⟨contracted, p, hp, hstages⟩ | ⟨broken, f, hf, faulty⟩
  · refine ⟨⟨fun _ => contracted, fun _ => ⟨p, hp⟩⟩, ?_, ?_, ?_⟩
    · intro p' hp'
      obtain rfl := Except.ok.inj (hp.symm.trans hp')
      exact hstages
    · intro e he
      cases hp.symm.trans he
    · rintro before after st rfl inside _ fresh free passing
      rcases ofStages_cases (before ++ st :: after) with ⟨_, accepted⟩ | ⟨broken, _⟩
      · exact accepted
      · exact absurd (contracted.insert inside fresh free passing) broken
  · have refused : ¬ ∃ p, ofStages stages = .ok p := by
      rintro ⟨p, hp⟩
      cases hf.symm.trans hp
    refine ⟨⟨fun h => absurd h refused, fun h => absurd h broken⟩, ?_, ?_, ?_⟩
    · intro p hp
      exact absurd ⟨p, hp⟩ refused
    · intro e he
      exact ⟨f, (Except.error.inj (hf.symm.trans he)).symm, faulty⟩
    · intro _ _ _ _ _ accepted
      exact absurd accepted refused

/-- A stage that contributes nothing. -/
def idle (name : String) (requires provides : List Capability) (terminal : Bool) : Stage where
  name := name
  requires := requires
  provides := provides
  terminal := terminal
  contribute c := .ok (c.artifacts, {})

/-- A log may come before the tables. Of three faults, the requirement of the first stage
counts. -/
theorem ofStages_keeps_contracts_log :
    let base := idle "base" [] [.typeRegistry] false
    let tables := idle "tables" [.typeRegistry] [.modelTables] false
    let closing := idle "closing" [.modelTables] [] true
    let log := idle "log" [] [] false
    (∃ p, ofStages [base, tables, closing] = .ok p) ∧
      (∃ q, ofStages [base, log, tables, closing] = .ok q ∧
        q.stages = [base, log, tables, closing]) ∧
      ofStages [closing, base, base] =
        .error (.pipeline (.missingCapability "closing" .modelTables)) ∧
      Faulty [closing, base, base] (.missingCapability "closing" .modelTables) := by
  intro base tables closing log
  have accepted : ∃ p, ofStages [base, tables, closing] = .ok p := ⟨⟨_, rfl⟩, rfl⟩
  have refused : ofStages [closing, base, base] =
      .error (.pipeline (.missingCapability "closing" .modelTables)) := rfl
  refine ⟨accepted, ?_, refused, ?_⟩
  · exact (ofStages_keeps_contracts [base, tables, closing]).2.2.2 [base] [tables, closing] log rfl
      (List.cons_ne_nil _ _) accepted (by decide) rfl rfl
  · obtain ⟨f, hf, faulty⟩ := (ofStages_keeps_contracts [closing, base, base]).2.2.1 _ refused
    obtain rfl := BuildError.pipeline.inj hf
    exact faulty

end SchemaStack.Pipeline
