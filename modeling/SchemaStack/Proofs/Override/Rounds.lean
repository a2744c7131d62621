import SchemaStack.Proofs.Override.Dialogue
/-!
# Sessions as dialogues

A session waits in states; what is left of the dialogue in a state is a phase of its own. An answer
takes the session from what is left in one state to what is left in the next, so by induction on
the answers a session goes as its dialogue does.
-/

namespace SchemaStack.Session

open Phase

variable {σ α : Type}

/-- The transcript ends in this way. -/
def Transcript.EndsIn (t : Transcript σ) (failure : String → PromptError) :
    Ending σ Outcome → Prop
  | .done o world rest => t.outcome = .ok o ∧ t.world = world ∧ t.left = rest.length
  | .broken p world rest =>
    t.outcome = .error (failure p.text) ∧ t.world = world ∧ t.left = rest.length

/-- How a transcript ends does not depend on its events. -/
lemma Transcript.endsIn_events {t : Transcript σ} {failure : String → PromptError}
    {ending : Ending σ Outcome} (h : t.EndsIn failure ending) (es : List Event) :
    { t with events := es }.EndsIn failure ending := by
  cases ending with
  | done o world rest => exact h
  | broken p world rest => exact h

/-! ## From each state on -/

section States

variable (s : OverrideSettings) (sources : TableSources σ) (tables : List String)

/-- After a round, when the replacements are `overrides`. -/
def afterRound (overrides : List TableOverride) : Phase σ Outcome :=
  Then (more s tables) fun
    | true => Then (Rounds (round s sources tables) (more s tables) overrides) fun overrides =>
        Yields ⟨true, overrides⟩
    | false => Yields ⟨true, overrides⟩

/-- After a search for a replacement. -/
def afterSearch (table : String) (overrides : List TableOverride) :
    Except Setback Replacement → Phase σ Outcome
  | .ok r => afterRound s sources tables (overrides ++ [⟨table, r⟩])
  | .error why => Then (Notes (.reported why)) fun _ =>
      Then (Until (attempt s sources tables table)) fun r =>
        afterRound s sources tables (overrides ++ [⟨table, r⟩])

/-- What is left of the session in a state. -/
def remaining (overrides : List TableOverride) : Waiting → Phase σ Outcome
  | .gate =>
    Then (Asks (Waiting.gate.prompt s.service tables) Answer.yes?) fun
      | false => Yields ⟨false, []⟩
      | true => Then (Rounds (round s sources tables) (more s tables) overrides) fun overrides =>
          Yields ⟨true, overrides⟩
  | .target =>
    Then (Rounds (round s sources tables) (more s tables) overrides) fun overrides =>
      Yields ⟨true, overrides⟩
  | .source table =>
    Then (Until (attempt s sources tables table)) fun r =>
      afterRound s sources tables (overrides ++ [⟨table, r⟩])
  | .reuse table names =>
    Then (Provided (selects s tables (.reuse table names) names) fun name =>
      Yields (.ok (.reused name (.storageArn s.storageCategory name))))
      (afterSearch s sources tables table overrides)
  | .region table regions =>
    Then (Provided (selects s tables (.region table regions) regions)
      (searchRegion s sources tables table)) (afterSearch s sources tables table overrides)
  | .deployed table found =>
    Then (Provided (selects s tables (.deployed table found) found) fun d =>
      Yields (.ok (.deployed d))) (afterSearch s sources tables table overrides)
  | .more => afterRound s sources tables overrides

/-- What is left after a step, with these events and this ending. -/
def Continues (st : Step σ) (as : List Answer) (es : List Event) (ending : Ending σ Outcome) :
    Prop :=
  match st.next with
  | .ask w overrides => remaining s sources tables overrides w st.world as es ending
  | .stop o => Yields o st.world as es ending

end States

section Simulation

variable {s : OverrideSettings} {sources : TableSources σ} {tables : List String}

lemma selects_then {w : Waiting} {options : List α} {β : Type}
    (f : Except Setback α → Phase σ β) : Then (selects s tables w options) f =
      Then (Asks (w.prompt s.service tables) Answer.index?) fun i => f (chosen options i) := by
  rw [selects, then_assoc]
  exact congrArg (Then _) (funext fun i => yields_then _ f)

lemma offers_then {empty : EmptyMenu} {w : Waiting} {options : List α} {β : Type}
    (f : Except Setback α → Phase σ β) : Then (offers s tables empty w options) f =
      if options = [] then f (.error (.nothing empty))
      else Then (selects s tables w options) f := by
  rw [offers]
  split
  · exact yields_then _ f
  · rfl

lemma remaining_target (overrides : List TableOverride) :
    remaining s sources tables overrides .target =
      Then (Until (selects s tables .target tables)) fun table =>
        remaining s sources tables overrides (.source table) := by
  rw [remaining, rounds_then, round, then_assoc]
  refine congrArg (Then _) (funext fun table => ?_)
  rw [then_assoc]
  exact congrArg (Then _) (funext fun r => yields_then _ _)

lemma remaining_source (overrides : List TableOverride) (table : String) :
    remaining s sources tables overrides (.source table) =
      Then (attempt s sources tables table) (afterSearch s sources tables table overrides) := by
  rw [remaining, until_then]
  refine congrArg (Then _) (funext fun r => ?_)
  cases r with
  | ok r => rfl
  | error why => rfl

variable {world : World σ} {as : List Answer} {es : List Event} {ending : Ending σ Outcome}
  {table : String} {overrides : List TableOverride}

/-! ## Steps -/

lemma afterSearch_setBack {why : Setback} {calls : List Event}
    (h : Continues s sources tables (setBack table overrides calls why world) as es ending) :
    afterSearch s sources tables table overrides (.error why) world as ([.reported why] ++ es)
      ending :=
  .done Notes.mk h

lemma then_calls {c : Call} {query : World σ → Except SourceError α × World σ} {β : Type}
    {f : Except Setback α → Phase σ β} {ending : Ending σ β} {r : Except SourceError α}
    {world' : World σ} (hquery : query world = (r, world'))
    (h : f (r.mapError (.failed c)) world' as es ending) :
    Then (Calls c query) f world as ([.called c] ++ es) ending := by
  have called : Calls c query world as [.called c]
      (.done (r.mapError (.failed c)) world' as) := by
    have hmk : Calls c query world as [.called c]
        (.done ((query world).1.mapError (.failed c)) (query world).2 as) := .mk
    rwa [hquery] at hmk
  exact .done called h

lemma then_offers_nil {empty : EmptyMenu} {w : Waiting}
    {f : α → Phase σ (Except Setback Replacement)} {calls : List Event}
    (h : Continues s sources tables (setBack table overrides calls (.nothing empty) world) as es
      ending) :
    Then (Provided (offers s tables empty w []) f) (afterSearch s sources tables table overrides)
      world as ([.reported (.nothing empty)] ++ es) ending := by
  rw [provided_then, offers_then, if_pos rfl]
  exact afterSearch_setBack h

lemma then_offers_cons {empty : EmptyMenu} {w : Waiting} {a : α} {options : List α}
    {f : α → Phase σ (Except Setback Replacement)}
    {g : Except Setback Replacement → Phase σ Outcome}
    (h : Then (Provided (selects s tables w (a :: options)) f) g world as es ending) :
    Then (Provided (offers s tables empty w (a :: options)) f) g world as es ending := by
  rw [provided_then, offers_then, if_neg (List.cons_ne_nil a options), ← provided_then]
  exact h

lemma search_currentProject
    (h : Continues s sources tables (offerProjectTables s sources table overrides world) as es
      ending) :
    Then (search s sources tables table .currentProject)
      (afterSearch s sources tables table overrides) world as
      ((offerProjectTables s sources table overrides world).events ++ es) ending := by
  rw [search, provided_then]
  cases hquery : world.ask sources.loadMeta with
  | mk r world' =>
    rw [offerProjectTables, hquery] at h ⊢
    cases r with
    | error e => exact then_calls hquery (afterSearch_setBack h)
    | ok projectMeta =>
      dsimp only at h ⊢
      cases hnames : projectMeta.resourcesOf s.storageCategory s.service.label with
      | nil =>
        rw [hnames] at h
        refine then_calls hquery ?_
        dsimp only [Except.mapError]
        rw [hnames]
        exact then_offers_nil h
      | cons name names =>
        rw [hnames] at h
        refine then_calls hquery ?_
        dsimp only [Except.mapError]
        rw [hnames]
        exact then_offers_cons h

lemma search_newResource
    (h : Continues s sources tables (addTable s sources table overrides world) as es ending) :
    Then (search s sources tables table .newResource)
      (afterSearch s sources tables table overrides) world as
      ((addTable s sources table overrides world).events ++ es) ending := by
  rw [search]
  cases hprovision : sources.provision with
  | none =>
    rw [addTable, hprovision] at h ⊢
    dsimp only
    rw [yields_then]
    exact afterSearch_setBack h
  | some provision =>
    dsimp only
    rw [provided_then]
    cases hquery : provision s.provider s.service world with
    | mk r world' =>
      rw [addTable, hprovision] at h ⊢
      dsimp only at h ⊢
      rw [hquery] at h ⊢
      cases r with
      | error e => exact then_calls hquery (afterSearch_setBack h)
      | ok name =>
        refine then_calls hquery ?_
        dsimp only [Except.mapError]
        rw [then_assoc, yields_then]
        exact .done Notes.mk h

lemma search_cloudResource
    (h : Continues s sources tables (offerRegions sources table overrides world) as es ending) :
    Then (search s sources tables table .cloudResource)
      (afterSearch s sources tables table overrides) world as
      ((offerRegions sources table overrides world).events ++ es) ending := by
  rw [search, provided_then]
  cases hquery : world.ask sources.regions with
  | mk r world' =>
    rw [offerRegions, hquery] at h ⊢
    cases r with
    | error e => exact then_calls hquery (afterSearch_setBack h)
    | ok regions =>
      cases regions with
      | nil => exact then_calls hquery (then_offers_nil h)
      | cons region regions => exact then_calls hquery (then_offers_cons h)

lemma then_searchRegion {region : String}
    (h : Continues s sources tables (offerDeployed sources table region overrides world) as es
      ending) :
    Then (searchRegion s sources tables table region)
      (afterSearch s sources tables table overrides) world as
      ((offerDeployed sources table region overrides world).events ++ es) ending := by
  rw [searchRegion, provided_then]
  cases hquery : world.ask (sources.tables region) with
  | mk r world' =>
    rw [offerDeployed, hquery] at h ⊢
    cases r with
    | error e => exact then_calls hquery (afterSearch_setBack h)
    | ok found =>
      cases found with
      | nil => exact then_calls hquery (then_offers_nil h)
      | cons d found => exact then_calls hquery (then_offers_cons h)

/-- The search for a replacement goes as its step does. -/
lemma then_search {source : TableSource}
    (h : Continues s sources tables (lookIn s sources source table overrides world) as es ending) :
    Then (search s sources tables table source) (afterSearch s sources tables table overrides)
      world as ((lookIn s sources source table overrides world).events ++ es) ending := by
  cases source with
  | currentProject => exact search_currentProject h
  | newResource => exact search_newResource h
  | cloudResource => exact search_cloudResource h

/-! ## Runs -/

lemma selects_answered {w : Waiting} {options : List α} {i : Nat}
    {f : Except Setback α → Phase σ Outcome}
    (h : f (chosen options i) world as es ending) :
    Then (selects s tables w options) f world (.select i :: as)
      (.asked (w.prompt s.service tables) :: es) ending := by
  have asked : Asks (w.prompt s.service tables) Answer.index? world (.select i :: as)
      [.asked (w.prompt s.service tables)] (.done i world as) := .answered rfl
  rw [selects_then]
  exact .done asked h

lemma chosen_none {options : List α} {i : Nat} (h : options[i]? = none) :
    chosen options i = .error .invalidSelection := by
  rw [chosen, h]

lemma chosen_some {options : List α} {i : Nat} {a : α} (h : options[i]? = some a) :
    chosen options i = .ok a := by
  rw [chosen, h]

lemma confirms_answered {p : Prompt} {yes : Bool} {f : Bool → Phase σ Outcome}
    (h : f yes world as es ending) :
    Then (Asks p Answer.yes?) f world (.confirm yes :: as) (.asked p :: es) ending := by
  have asked : Asks p Answer.yes? world (.confirm yes :: as) [.asked p] (.done yes world as) :=
    .answered rfl
  exact .done asked h

/-- At a menu of a search, an index that picks nothing is a setback. -/
lemma selects_step {w : Waiting} {options : List α} {i : Nat}
    {f : α → Phase σ (Except Setback Replacement)} {st : Step σ}
    (outside : options[i]? = none → st = setBack table overrides [] .invalidSelection world)
    (inside : ∀ a, options[i]? = some a → Then (f a)
      (afterSearch s sources tables table overrides) world as (st.events ++ es) ending)
    (h : Continues s sources tables st as es ending) :
    Then (Provided (selects s tables w options) f) (afterSearch s sources tables table overrides)
      world (.select i :: as) (.asked (w.prompt s.service tables) :: (st.events ++ es)) ending := by
  rw [provided_then]
  refine selects_answered ?_
  cases hi : options[i]? with
  | none =>
    rw [chosen_none hi]
    rw [outside hi] at h ⊢
    exact afterSearch_setBack h
  | some a =>
    rw [chosen_some hi]
    exact inside a hi

lemma then_found {r : Replacement}
    (h : Continues s sources tables (replace table overrides r [] world) as es ending) :
    Then (Yields (.ok r)) (afterSearch s sources tables table overrides) world as
      ((replace table overrides r [] world).events ++ es) ending := by
  rw [yields_then]
  exact h

/-- An answer that fits is followed by the events of its step and by what is left after it. -/
lemma remaining_step {w : Waiting} {a : Answer} {st : Step σ}
    (hstep : step? s sources tables w overrides world a = some st)
    (h : Continues s sources tables st as es ending) :
    remaining s sources tables overrides w world (a :: as)
      (.asked (w.prompt s.service tables) :: (st.events ++ es)) ending := by
  cases a with
  | confirm yes =>
    cases w with
    | gate =>
      cases hstep
      refine confirms_answered ?_
      cases yes <;> exact h
    | more =>
      cases hstep
      refine confirms_answered ?_
      cases yes <;> exact h
    | target => cases hstep
    | source table => cases hstep
    | reuse table names => cases hstep
    | region table regions => cases hstep
    | deployed table found => cases hstep
  | select i =>
    cases w with
    | gate => cases hstep
    | more => cases hstep
    | target =>
      rw [remaining_target, until_then]
      refine selects_answered ?_
      cases hi : tables[i]? with
      | none =>
        rw [step?, hi] at hstep
        cases hstep
        rw [chosen_none hi, ← remaining_target]
        exact .done Notes.mk h
      | some table =>
        rw [step?, hi] at hstep
        cases hstep
        rw [chosen_some hi]
        exact h
    | source table =>
      rw [remaining_source]
      refine selects_step (fun hi => ?_) (fun source hi => ?_) h
      · rw [step?, hi] at hstep
        exact (Option.some.inj hstep).symm
      · rw [step?, hi] at hstep
        cases hstep
        exact then_search h
    | reuse table names =>
      refine selects_step (fun hi => ?_) (fun name hi => ?_) h
      · rw [step?, hi] at hstep
        exact (Option.some.inj hstep).symm
      · rw [step?, hi] at hstep
        cases hstep
        exact then_found h
    | region table regions =>
      refine selects_step (fun hi => ?_) (fun region hi => ?_) h
      · rw [step?, hi] at hstep
        exact (Option.some.inj hstep).symm
      · rw [step?, hi] at hstep
        cases hstep
        exact then_searchRegion h
    | deployed table found =>
      refine selects_step (fun hi => ?_) (fun d hi => ?_) h
      · rw [step?, hi] at hstep
        exact (Option.some.inj hstep).symm
      · rw [step?, hi] at hstep
        cases hstep
        exact then_found h
  | other => cases hstep

lemma selects_asks {w : Waiting} {options : List α}
    (f : α → Phase σ (Except Setback Replacement))
    (g : Except Setback Replacement → Phase σ Outcome) :
    ∃ k, Then (Provided (selects s tables w options) f) g =
      Then (Asks (w.prompt s.service tables) Answer.index?) k :=
  ⟨_, (provided_then _ f g).trans (selects_then _)⟩

/-- A menu takes every choice. -/
lemma step?_select_ne_none {w : Waiting} (menu : w.isMenu = true) (i : Nat) :
    step? s sources tables w overrides world (.select i) ≠ none := by
  intro h
  cases w with
  | gate => cases menu
  | more => cases menu
  | _ =>
    rw [step?] at h
    split at h <;> cases h

/-- Every state waits at its prompt, for an answer to a question or for a choice. -/
lemma remaining_asks (overrides : List TableOverride) (w : Waiting) :
    (∃ f, remaining s sources tables overrides w =
        Then (Asks (w.prompt s.service tables) Answer.yes?) f) ∧
      (∀ world yes, step? s sources tables w overrides world (.confirm yes) ≠ none) ∨
    (∃ f, remaining s sources tables overrides w =
        Then (Asks (w.prompt s.service tables) Answer.index?) f) ∧
      ∀ world i, step? s sources tables w overrides world (.select i) ≠ none := by
  cases w with
  | gate => exact Or.inl ⟨⟨_, rfl⟩, fun _ _ => Option.some_ne_none _⟩
  | more => exact Or.inl ⟨⟨_, rfl⟩, fun _ _ => Option.some_ne_none _⟩
  | target =>
    have asks := (until_then (selects s tables .target tables)
      (fun table => remaining s sources tables overrides (.source table))).trans (selects_then _)
    exact Or.inr ⟨⟨_, (remaining_target overrides).trans asks⟩,
      fun _ i => step?_select_ne_none (by rfl) i⟩
  | source table =>
    refine Or.inr ⟨?_, fun _ i => step?_select_ne_none (by rfl) i⟩
    rw [remaining_source]
    exact selects_asks _ _
  | reuse table names =>
    exact Or.inr ⟨selects_asks _ _, fun _ i => step?_select_ne_none (by rfl) i⟩
  | region table regions =>
    exact Or.inr ⟨selects_asks _ _, fun _ i => step?_select_ne_none (by rfl) i⟩
  | deployed table found =>
    exact Or.inr ⟨selects_asks _ _, fun _ i => step?_select_ne_none (by rfl) i⟩

lemma remaining_missing (w : Waiting) :
    remaining s sources tables overrides w world [] [.asked (w.prompt s.service tables)]
      (.broken (w.prompt s.service tables) world []) := by
  rcases remaining_asks overrides w with ⟨⟨f, hf⟩, _⟩ | ⟨⟨f, hf⟩, _⟩
  · rw [hf]
    exact .broken Asks.missing
  · rw [hf]
    exact .broken Asks.missing

lemma remaining_unfit {w : Waiting} {a : Answer}
    (hstep : step? s sources tables w overrides world a = none) :
    remaining s sources tables overrides w world (a :: as) [.asked (w.prompt s.service tables)]
      (.broken (w.prompt s.service tables) world as) := by
  rcases remaining_asks overrides w with ⟨⟨f, hf⟩, fits⟩ | ⟨⟨f, hf⟩, fits⟩
  · have unfit : a.yes? = none := by
      cases a with
      | confirm yes => exact absurd hstep (fits world yes)
      | select i => rfl
      | other => rfl
    rw [hf]
    exact .broken (Asks.unfit unfit)
  · have unfit : a.index? = none := by
      cases a with
      | confirm yes => rfl
      | select i => exact absurd hstep (fits world i)
      | other => rfl
    rw [hf]
    exact .broken (Asks.unfit unfit)

/-- From every state on, the session goes as is left in that state. -/
lemma proceed_remaining (failure : String → PromptError) (w : Waiting)
    (overrides : List TableOverride) (world : World σ) (as : List Answer) :
    ∃ ending, remaining s sources tables overrides w world as
        (proceed s sources tables failure w overrides world as).events ending ∧
      (proceed s sources tables failure w overrides world as).EndsIn failure ending := by
  induction as generalizing w overrides world with
  | nil => exact ⟨_, remaining_missing w, rfl, rfl, rfl⟩
  | cons a as ih =>
    cases hstep : step? s sources tables w overrides world a with
    | none =>
      rw [proceed, hstep]
      exact ⟨_, remaining_unfit hstep, rfl, rfl, rfl⟩
    | some st =>
      rw [proceed, hstep]
      dsimp only
      cases hnext : st.next with
      | stop o =>
        have h : Continues s sources tables st as [] (.done o st.world as) := by
          rw [Continues, hnext]
          exact .mk
        have hdone := remaining_step hstep h
        rw [List.append_nil] at hdone
        exact ⟨_, hdone, rfl, rfl, rfl⟩
      | ask w' overrides' =>
        obtain ⟨ending, hrest, hends⟩ := ih w' overrides' st.world
        have h : Continues s sources tables st as
            (proceed s sources tables failure w' overrides' st.world as).events ending := by
          rw [Continues, hnext]
          exact hrest
        exact ⟨ending, remaining_step hstep h, Transcript.endsIn_events hends _⟩

lemma exists_dialogue (s : OverrideSettings) (sources : TableSources σ) (tables : List String)
    (operator : Operator) (world : World σ) :
    ∃ ending, dialogue s sources tables world operator.answers
        (run s sources tables operator world).events ending ∧
      (run s sources tables operator world).EndsIn operator.failure ending := by
  rw [run, dialogue]
  by_cases hnone : tables = []
  · rw [if_pos (List.isEmpty_iff.mpr hnone), if_pos hnone]
    exact ⟨_, .mk, rfl, rfl, rfl⟩
  · rw [if_neg (mt List.isEmpty_iff.mp hnone), if_neg hnone]
    obtain ⟨ending, hrest, hends⟩ :=
      proceed_remaining operator.failure .gate [] world operator.answers
    exact ⟨ending, .done Notes.mk hrest, Transcript.endsIn_events hends _⟩

/-- A session goes as its dialogue does, so it issues at most one prompt more than there are
answers, and it fails just where a prompt has no answer that fits: with the failure of that prompt,
which is its last event. -/
theorem run_dialogue (s : OverrideSettings) (sources : TableSources σ) (tables : List String)
    (operator : Operator) (world : World σ) :
    (∃ ending, dialogue s sources tables world operator.answers
        (run s sources tables operator world).events ending ∧
      (run s sources tables operator world).EndsIn operator.failure ending) ∧
    (prompts (run s sources tables operator world).events).length ≤ operator.answers.length + 1 ∧
    (∀ e, (run s sources tables operator world).outcome = .error e ↔
      ∃ p, Unanswered operator.answers (run s sources tables operator world).events p ∧
        e = operator.failure p.text) ∧
    ∀ p, Unanswered operator.answers (run s sources tables operator world).events p →
      (run s sources tables operator world).events.getLast? = some (.asked p) := by
  obtain ⟨ending, hdialogue, hends⟩ := exists_dialogue s sources tables operator world
  have haccounts := accounted_dialogue hdialogue
  refine ⟨⟨ending, hdialogue, hends⟩, length_prompts_le haccounts, fun e => ?_, fun p hp => ?_⟩
  · cases ending with
    | done o world rest =>
      rw [hends.1]
      refine iff_of_false (by rintro ⟨⟩) ?_
      rintro ⟨p, hp, _⟩
      obtain ⟨_, _, heq⟩ := (unanswered_iff haccounts).mp hp
      cases heq
    | broken p world rest =>
      rw [hends.1]
      constructor
      · intro h
        cases h
        exact ⟨p, (unanswered_iff haccounts).mpr ⟨_, _, rfl⟩, rfl⟩
      · rintro ⟨p', hp', rfl⟩
        obtain ⟨_, _, heq⟩ := (unanswered_iff haccounts).mp hp'
        cases heq
        rfl
  · obtain ⟨_, _, rfl⟩ := (unanswered_iff haccounts).mp hp
    obtain ⟨before, used, hevents, _⟩ := haccounts
    rw [hevents, List.getLast?_concat]

end Simulation

end SchemaStack.Session
