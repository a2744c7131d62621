import SchemaStack.Proofs.Override.Answers
/-!
# The dialogue of a session

What a session is, as a phase: how many tables there are, the question whether any of them should
be replaced, and rounds as long as the operator wants more of them. A round picks a table and then
looks for a replacement of that table until one is found; each search goes through one source, and
whatever sets it back ends it.
-/

namespace SchemaStack.Session

open Phase

variable {σ α : Type}

section Law

variable (s : OverrideSettings) (sources : TableSources σ) (tables : List String)

/-- What the answer to a menu picks. -/
def chosen (options : List α) (i : Nat) : Except Setback α :=
  match options[i]? with
  | some a => .ok a
  | none => .error .invalidSelection

def selects (w : Waiting) (options : List α) : Phase σ (Except Setback α) :=
  Then (Asks (w.prompt s.service tables) Answer.index?) fun i => Yields (chosen options i)

/-- A menu is shown only if there is something on it. -/
def offers (empty : EmptyMenu) (w : Waiting) (options : List α) : Phase σ (Except Setback α) :=
  if options = [] then Yields (.error (.nothing empty)) else selects s tables w options

/-- The choice among the deployed tables of a region. -/
def searchRegion (table region : String) : Phase σ (Except Setback Replacement) :=
  Provided (Calls (.tables region) (·.ask (sources.tables region))) fun found =>
    Provided (offers s tables .regionTables (.deployed table found) found) fun d =>
      Yields (.ok (.deployed d))

/-- The search for a replacement in one of the sources. -/
def search (table : String) : TableSource → Phase σ (Except Setback Replacement)
  | .currentProject =>
    Provided (Calls .loadMeta (·.ask sources.loadMeta)) fun projectMeta =>
      let names := projectMeta.resourcesOf s.storageCategory s.service.label
      Provided (offers s tables .projectTables (.reuse table names) names) fun name =>
        Yields (.ok (.reused name (.storageArn s.storageCategory name)))
  | .newResource =>
    match sources.provision with
    | none => Yields (.error .noPlugin)
    | some provision =>
      Provided (Calls (.provision s.provider s.service) (provision s.provider s.service))
        fun name => Then (Notes (.added name)) fun _ =>
          Yields (.ok (.added name (.storageArn s.storageCategory name)))
  | .cloudResource =>
    Provided (Calls .regions (·.ask sources.regions)) fun regions =>
      Provided (offers s tables .regions (.region table regions) regions)
        (searchRegion s sources tables table)

/-- One choice of a source with the search in it. -/
def attempt (table : String) : Phase σ (Except Setback Replacement) :=
  Provided (selects s tables (.source table) TableSource.all) (search s sources tables table)

/-- A table is chosen, and then a source until the search for a replacement succeeds. -/
def round : Phase σ TableOverride :=
  Then (Until (selects s tables .target tables)) fun table =>
    Then (Until (attempt s sources tables table)) fun r => Yields ⟨table, r⟩

def more : Phase σ Bool := Asks (Waiting.more.prompt s.service tables) Answer.yes?

/-- The whole session. -/
def dialogue : Phase σ Outcome :=
  if tables = [] then Yields ⟨false, []⟩
  else
    Then (Notes (.detected tables.length)) fun _ =>
      Then (Asks (Waiting.gate.prompt s.service tables) Answer.yes?) fun
        | false => Yields ⟨false, []⟩
        | true => Then (Rounds (round s sources tables) (more s tables) []) fun overrides =>
            Yields ⟨true, overrides⟩

end Law

/-! ## Prompts of a dialogue -/

section Accounts

variable {s : OverrideSettings} {sources : TableSources σ} {tables : List String}

/-- Whether the prompt of the state is a choice. -/
def Waiting.isMenu : Waiting → Bool
  | .gate => false
  | .more => false
  | _ => true

lemma accounted_confirms (text : String) :
    Accounted (Asks (.confirm text) Answer.yes? : Phase σ Bool) := by
  refine accounted_asks fun a => ?_
  cases a with
  | confirm yes => exact iff_of_false (Option.some_ne_none _) (not_not_intro (.confirm text yes))
  | select i => exact iff_of_true rfl (by rintro ⟨⟩)
  | other => exact iff_of_true rfl (by rintro ⟨⟩)

/-- A number that is not on the menu is an answer that fits all the same. -/
lemma accounted_selects {w : Waiting} (h : w.isMenu = true) (options : List α) :
    Accounted (selects s tables w options : Phase σ (Except Setback α)) := by
  obtain ⟨text, items, hprompt⟩ : ∃ text items, w.prompt s.service tables = .select text items := by
    cases w with
    | gate => cases h
    | more => cases h
    | target => exact ⟨_, _, rfl⟩
    | source table => exact ⟨_, _, rfl⟩
    | reuse table names => exact ⟨_, _, rfl⟩
    | region table regions => exact ⟨_, _, rfl⟩
    | deployed table found => exact ⟨_, _, rfl⟩
  refine accounted_then (accounted_asks fun a => ?_) fun i => accounted_yields _
  rw [hprompt]
  cases a with
  | confirm yes => exact iff_of_true rfl (by rintro ⟨⟩)
  | select i => exact iff_of_false (Option.some_ne_none _) (not_not_intro (.select text items i))
  | other => exact iff_of_true rfl (by rintro ⟨⟩)

lemma accounted_offers {w : Waiting} (h : w.isMenu = true) (empty : EmptyMenu)
    (options : List α) :
    Accounted (offers s tables empty w options : Phase σ (Except Setback α)) := by
  rw [offers]
  split
  · exact accounted_yields _
  · exact accounted_selects h options

lemma accounted_searchRegion (table region : String) :
    Accounted (searchRegion s sources tables table region) :=
  accounted_provided (accounted_calls _ _) fun found =>
    accounted_provided (accounted_offers (by rfl) _ _) fun _ => accounted_yields _

lemma accounted_search (table : String) (source : TableSource) :
    Accounted (search s sources tables table source) := by
  cases source with
  | currentProject =>
    exact accounted_provided (accounted_calls _ _) fun projectMeta =>
      accounted_provided (accounted_offers (by rfl) _ _) fun _ => accounted_yields _
  | newResource =>
    rw [search]
    split
    · exact accounted_yields _
    · exact accounted_provided (accounted_calls _ _) fun name =>
        accounted_then (accounted_notes rfl) fun _ => accounted_yields _
  | cloudResource =>
    exact accounted_provided (accounted_calls _ _) fun regions =>
      accounted_provided (accounted_offers (by rfl) _ _) fun region =>
        accounted_searchRegion table region

lemma accounted_round : Accounted (round s sources tables) :=
  accounted_then (accounted_until (accounted_selects (by rfl) _)) fun table =>
    accounted_then (accounted_until (accounted_provided (accounted_selects (by rfl) _)
      fun source => accounted_search table source)) fun _ => accounted_yields _

lemma accounted_more : Accounted (more s tables : Phase σ Bool) := accounted_confirms _

/-- The whole dialogue is put together from prompts and calls. -/
lemma accounted_dialogue : Accounted (dialogue s sources tables) := by
  rw [dialogue]
  split
  · exact accounted_yields _
  · refine accounted_then (accounted_notes rfl) fun _ =>
      accounted_then (accounted_confirms _) fun yes => ?_
    cases yes with
    | false => exact accounted_yields _
    | true => exact accounted_then (accounted_rounds accounted_round accounted_more []) fun _ =>
        accounted_yields _

end Accounts

end SchemaStack.Session
