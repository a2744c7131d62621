import SchemaStack.Project.Files
import SchemaStack.Proofs.Fallible
import Mathlib.Data.List.Forall2
import Mathlib.Tactic.Common
/-!
# Where replacements come from

A replacement is found in one branch of a session: from the answer that picks a source on, the
menus of that branch show what the sources have answered in it, and the answers pick from these
menus. What other branches have shown, before or in between, has no part in it.
-/

namespace SchemaStack

/-- The tables of each region are those that an inventory records, asked for however often. -/
def TableSources.Records {σ : Type} (sources : TableSources σ) (inventory : Inventory) : Prop :=
  ∀ region files memory,
    sources.tables region files memory = (.ok (inventory.tablesIn region), memory)

/-- A project on files offers the tables of its inventory. -/
lemma TableSources.records_ofFiles (p : Path) (inventory : Inventory) (category : Option String) :
    (ofFiles p inventory category).Records inventory :=
  fun _ _ _ => rfl

namespace Session

variable {σ : Type}

/-! ## Positions of answers -/

/-- The answer at a position picks this option. -/
def Picks {α : Type} (answers : List Answer) (n : Nat) (options : List α) (a : α) : Prop :=
  ∃ i, answers[n]? = some (.select i) ∧ options[i]? = some a

/-- Whether a resource is one of the service. -/
def serves (service : StorageService) (resource : String × Json) : Bool :=
  (resource.2.get? "service").bind Json.string? == some service.label

section Branches

variable (s : OverrideSettings) (sources : TableSources σ) (tables : List String)
  (answers : List Answer) (start : World σ)

/-- The session with only the answers before a position. -/
def runBefore (n : Nat) : Transcript σ :=
  run s sources tables (.scripted (answers.take n)) start

/-- The world in front of an answer. -/
def worldBefore (n : Nat) : World σ := (runBefore s sources tables answers start n).world

/-- The answer at this position is one to the prompt of the state. -/
def AsksAt (n : Nat) (w : Waiting) : Prop :=
  (runBefore s sources tables answers start n).events.getLast? =
    some (.asked (w.prompt s.service tables))

/-- The branch that begins with the answer at this position has found the replacement. -/
inductive Sourced (n : Nat) : Replacement → Prop where
  /-- The resource that the next answer picks among those of the service, in the order of the
  metadata that is loaded first. -/
  | reused {projectMeta : ProjectMeta} {world : World σ} {name : String} {value : Json}
    {earlier later : Entries Json}
    (picked : Picks answers n TableSource.all .currentProject)
    (loaded : (worldBefore s sources tables answers start n).ask sources.loadMeta =
      (.ok projectMeta, world))
    (category : projectMeta.categories.get? s.storageCategory =
      some (earlier ++ (name, value) :: later))
    (served : serves s.service (name, value) = true)
    (chosen : answers[n + 1]? = some (.select (earlier.countP (serves s.service)))) :
    Sourced n (.reused name ⟨s.storageCategory ++ name, "Arn"⟩)
  /-- The resource that is set up. -/
  | added {provision : String → StorageService → World σ → Except SourceError String × World σ}
    {name : String} {world : World σ}
    (picked : Picks answers n TableSource.all .newResource)
    (able : sources.provision = some provision)
    (provisioned : provision s.provider s.service (worldBefore s sources tables answers start n) =
      (.ok name, world)) :
    Sourced n (.added name ⟨s.storageCategory ++ name, "Arn"⟩)
  /-- The table that the last of three answers picks in the region that the second one picks. -/
  | deployed {regions : List String} {region : String} {found : List DeployedTable}
    {table : DeployedTable} {world world' : World σ}
    (picked : Picks answers n TableSource.all .cloudResource)
    (listed : (worldBefore s sources tables answers start n).ask sources.regions =
      (.ok regions, world))
    (inRegion : Picks answers (n + 1) regions region)
    (offered : world.ask (sources.tables region) = (.ok found, world'))
    (chosen : Picks answers (n + 2) found table)
    (recorded : ∀ inventory, sources.Records inventory →
      found = inventory.tables.filter (fun t => t.region = region) ∧ table.region = region) :
    Sourced n (.deployed table)

end Branches

/-! ## Menus of resources -/

lemma exists_of_getElem?_filter {α : Type} {p : α → Bool} {xs : List α} {i : Nat} {x : α}
    (h : (xs.filter p)[i]? = some x) :
    ∃ earlier later, xs = earlier ++ x :: later ∧ p x = true ∧ earlier.countP p = i := by
  induction xs generalizing i with
  | nil => cases h
  | cons y ys ih =>
    by_cases hy : p y = true
    · rw [List.filter_cons_of_pos hy] at h
      cases i with
      | zero =>
        obtain rfl := Option.some.inj h
        exact ⟨[], ys, rfl, hy, rfl⟩
      | succ i =>
        obtain ⟨earlier, later, rfl, hx, hcount⟩ := ih h
        exact ⟨y :: earlier, later, rfl, hx, by rw [List.countP_cons_of_pos hy, hcount]⟩
    · rw [List.filter_cons_of_neg hy] at h
      obtain ⟨earlier, later, rfl, hx, hcount⟩ := ih h
      exact ⟨y :: earlier, later, rfl, hx, by rw [List.countP_cons_of_neg hy, hcount]⟩

/-- A name on the menu of a category is that of a resource of the service, as far down in the
category. -/
lemma exists_resource {m : ProjectMeta} {category name : String} {service : StorageService}
    {i : Nat} (h : (m.resourcesOf category service.label)[i]? = some name) :
    ∃ value earlier later, m.categories.get? category = some (earlier ++ (name, value) :: later) ∧
      serves service (name, value) = true ∧ earlier.countP (serves service) = i := by
  rw [ProjectMeta.resourcesOf, List.getElem?_map] at h
  obtain ⟨⟨_, value⟩, hentry, rfl⟩ := Option.map_eq_some_iff.mp h
  obtain ⟨earlier, later, hsplit, served, hcount⟩ := exists_of_getElem?_filter hentry
  cases hget : m.categories.get? category with
  | none => simp [hget] at hsplit
  | some resources =>
    rw [hget, Option.getD_some] at hsplit
    exact ⟨value, earlier, later, congrArg some hsplit, served, hcount⟩

/-! ## States in a branch -/

/-- How many answers a branch has taken before the state. -/
def Waiting.depth : Waiting → Nat
  | .reuse .. => 1
  | .region .. => 1
  | .deployed .. => 2
  | _ => 0

section States

variable (s : OverrideSettings) (sources : TableSources σ) (tables : List String)
  (answers : List Answer) (start : World σ)

/-- Every override comes from a branch of its own, one after the other, and the last of them ended
before this position. -/
def Traced (n : Nat) (done : List TableOverride) : Prop :=
  ∃ ns : List Nat, ns.Pairwise (· < ·) ∧ (∀ m ∈ ns, m < n) ∧ List.Forall₂ (fun m o =>
    AsksAt s sources tables answers start m (.source o.table) ∧
      Sourced s sources tables answers start m o.replacement) ns done

/-- What the menu of a state shows, in the branch that begins with the answer at this position. -/
def Shown (n : Nat) (world : World σ) : Waiting → Prop
  | .reuse table names => AsksAt s sources tables answers start n (.source table) ∧
      ∃ projectMeta, Picks answers n TableSource.all .currentProject ∧
        (worldBefore s sources tables answers start n).ask sources.loadMeta =
          (.ok projectMeta, world) ∧
        names = projectMeta.resourcesOf s.storageCategory s.service.label
  | .region table regions => AsksAt s sources tables answers start n (.source table) ∧
      Picks answers n TableSource.all .cloudResource ∧
        (worldBefore s sources tables answers start n).ask sources.regions = (.ok regions, world)
  | .deployed table found => AsksAt s sources tables answers start n (.source table) ∧
      ∃ regions region world', Picks answers n TableSource.all .cloudResource ∧
        (worldBefore s sources tables answers start n).ask sources.regions =
          (.ok regions, world') ∧
        Picks answers (n + 1) regions region ∧
        world'.ask (sources.tables region) = (.ok found, world)
  | _ => True

/-- With the answers before this position the session has come to the state. -/
def Reached (k : Nat) (w : Waiting) (done : List TableOverride) (world : World σ) : Prop :=
  ∃ es, ∀ as, run s sources tables (.scripted (answers.take k ++ as)) start =
    let t := proceed s sources tables PromptError.unanswered w done world as
    { t with events := es ++ t.events }

/-- A step that uses the answer at this position leads to a state with the same knowledge. -/
def Leads (k : Nat) (st : Step σ) : Prop :=
  ∀ w done, st.next = .ask w done → ∃ n, n + w.depth = k + 1 ∧
    Shown s sources tables answers start n st.world w ∧
      Traced s sources tables answers start n done

end States

section Invariant

variable {s : OverrideSettings} {sources : TableSources σ} {tables : List String}
  {answers : List Answer} {start world : World σ} {w w' : Waiting}
  {done done' : List TableOverride} {n k : Nat} {a : Answer} {st : Step σ} {table : String}

lemma Traced.mono {n' : Nat} (h : Traced s sources tables answers start n done) (hle : n ≤ n') :
    Traced s sources tables answers start n' done := by
  obtain ⟨ns, increasing, hbefore, hsourced⟩ := h
  exact ⟨ns, increasing, fun m hm => Nat.lt_of_lt_of_le (hbefore m hm) hle, hsourced⟩

lemma Traced.concat {r : Replacement} (h : Traced s sources tables answers start n done)
    (asked : AsksAt s sources tables answers start n (.source table))
    (sourced : Sourced s sources tables answers start n r) :
    Traced s sources tables answers start (n + 1) (done ++ [⟨table, r⟩]) := by
  obtain ⟨ns, increasing, hbefore, hall⟩ := h
  refine ⟨ns ++ [n], ?_, ?_, List.rel_append hall (.cons ⟨asked, sourced⟩ .nil)⟩
  · rw [List.pairwise_append]
    exact ⟨increasing, List.pairwise_singleton _ _, fun m hm k hk =>
      List.mem_singleton.mp hk ▸ hbefore m hm⟩
  · intro m hm
    rcases List.mem_append.mp hm with hm | hm
    · exact Nat.lt_succ_of_lt (hbefore m hm)
    · exact Nat.lt_succ_of_le (Nat.le_of_eq (List.mem_singleton.mp hm))

/-! ## What has been reached -/

lemma Reached.run_take (h : Reached s sources tables answers start k w done world) :
    ∃ es, runBefore s sources tables answers start k =
      ⟨es ++ [.asked (w.prompt s.service tables)],
        .error (.unanswered (w.prompt s.service tables).text), 0, world⟩ := by
  obtain ⟨es, hrun⟩ := h
  have hnil := hrun []
  rw [List.append_nil] at hnil
  exact ⟨es, hnil⟩

lemma Reached.worldBefore_eq (h : Reached s sources tables answers start k w done world) :
    worldBefore s sources tables answers start k = world := by
  obtain ⟨es, hrun⟩ := h.run_take
  rw [worldBefore, hrun]

lemma Reached.asksAt (h : Reached s sources tables answers start k w done world) :
    AsksAt s sources tables answers start k w := by
  obtain ⟨es, hrun⟩ := h.run_take
  rw [AsksAt, hrun, List.getLast?_concat]

lemma Reached.next (h : Reached s sources tables answers start k w done world)
    (hanswer : answers[k]? = some a) (hstep : step? s sources tables w done world a = some st)
    (hnext : st.next = .ask w' done') :
    Reached s sources tables answers start (k + 1) w' done' st.world := by
  obtain ⟨es, hrun⟩ := h
  refine ⟨es ++ .asked (w.prompt s.service tables) :: st.events, fun as => ?_⟩
  have htake : answers.take (k + 1) ++ as = answers.take k ++ a :: as := by
    rw [List.take_add_one, hanswer, Option.toList_some, List.append_assoc, List.singleton_append]
  rw [htake, hrun, proceed, hstep]
  simp only [hnext, List.append_assoc, List.cons_append]

/-! ## Steps -/

lemma leads_setBack {calls : List Event} {why : Setback}
    (traced : Traced s sources tables answers start n done) (hle : n ≤ k + 1) :
    Leads s sources tables answers start k (setBack table done calls why world) := by
  rintro w done' ⟨⟩
  exact ⟨k + 1, rfl, trivial, traced.mono hle⟩

lemma leads_replace {calls : List Event} {r : Replacement}
    (traced : Traced s sources tables answers start n done)
    (asked : AsksAt s sources tables answers start n (.source table))
    (sourced : Sourced s sources tables answers start n r) (hle : n ≤ k) :
    Leads s sources tables answers start k (replace table done r calls world) := by
  rintro w done' ⟨⟩
  exact ⟨k + 1, rfl, trivial, (traced.concat asked sourced).mono (Nat.succ_le_succ hle)⟩

section Source

variable (reached : Reached s sources tables answers start k (.source table) done world)
  (traced : Traced s sources tables answers start k done)

include reached traced

lemma leads_offerProjectTables (picked : Picks answers k TableSource.all .currentProject) :
    Leads s sources tables answers start k (offerProjectTables s sources table done world) := by
  rw [offerProjectTables]
  split
  · exact leads_setBack traced (Nat.le_succ k)
  · next projectMeta world' hload =>
    rw [← reached.worldBefore_eq] at hload
    split
    · exact leads_setBack traced (Nat.le_succ k)
    · rintro w done' ⟨⟩
      exact ⟨k, rfl, ⟨reached.asksAt, projectMeta, picked, hload, rfl⟩, traced⟩

lemma leads_addTable (picked : Picks answers k TableSource.all .newResource) :
    Leads s sources tables answers start k (addTable s sources table done world) := by
  rw [addTable]
  split
  · exact leads_setBack traced (Nat.le_succ k)
  · next provision able =>
    dsimp only
    split
    · exact leads_setBack traced (Nat.le_succ k)
    · next name world' hprovision =>
      rw [← reached.worldBefore_eq] at hprovision
      exact leads_replace traced reached.asksAt (.added picked able hprovision) (Nat.le_refl k)

lemma leads_offerRegions (picked : Picks answers k TableSource.all .cloudResource) :
    Leads s sources tables answers start k (offerRegions sources table done world) := by
  rw [offerRegions]
  split
  · exact leads_setBack traced (Nat.le_succ k)
  · exact leads_setBack traced (Nat.le_succ k)
  · next regions world' _ hregions =>
    rw [← reached.worldBefore_eq] at hregions
    rintro w done' ⟨⟩
    exact ⟨k, rfl, ⟨reached.asksAt, picked, hregions⟩, traced⟩

lemma leads_lookIn {source : TableSource} (picked : Picks answers k TableSource.all source) :
    Leads s sources tables answers start k (lookIn s sources source table done world) := by
  cases source with
  | currentProject => exact leads_offerProjectTables reached traced picked
  | newResource => exact leads_addTable reached traced picked
  | cloudResource => exact leads_offerRegions reached traced picked

end Source

lemma leads_offerDeployed {regions : List String} {region : String}
    (asked : AsksAt s sources tables answers start n (.source table))
    (picked : Picks answers n TableSource.all .cloudResource)
    (listed : (worldBefore s sources tables answers start n).ask sources.regions =
      (.ok regions, world))
    (inRegion : Picks answers (n + 1) regions region)
    (traced : Traced s sources tables answers start n done) :
    Leads s sources tables answers start (n + 1)
      (offerDeployed sources table region done world) := by
  have hle : n ≤ n + 1 + 1 := Nat.le_add_right n 2
  rw [offerDeployed]
  split
  · exact leads_setBack traced hle
  · exact leads_setBack traced hle
  · next found world' _ hfound =>
    rintro w done' ⟨⟩
    exact ⟨n, rfl, ⟨asked, regions, region, world, picked, listed, inRegion, hfound⟩, traced⟩

/-- In a region of an inventory the tables recorded for it are offered, in their order. -/
lemma recorded_of_ask {region : String} {found : List DeployedTable} {world' : World σ}
    {inventory : Inventory} (records : sources.Records inventory)
    (offered : world.ask (sources.tables region) = (.ok found, world')) :
    found = inventory.tables.filter fun t => t.region = region := by
  rw [World.ask, records] at offered
  rw [← Except.ok.inj (Prod.mk.inj offered).1, Inventory.tablesIn]
  exact List.filter_congr fun t _ => rfl

lemma sourced_deployed {found : List DeployedTable} {d : DeployedTable}
    (shown : Shown s sources tables answers start n world (.deployed table found))
    (chosen : Picks answers (n + 2) found d) :
    Sourced s sources tables answers start n (.deployed d) := by
  obtain ⟨_, regions, region, world', picked, listed, inRegion, offered⟩ := shown
  refine .deployed picked listed inRegion offered chosen fun inventory records => ?_
  have hfound := recorded_of_ask records offered
  obtain ⟨i, _, hd⟩ := chosen
  have hmem := List.mem_of_getElem? hd
  rw [hfound, List.mem_filter] at hmem
  exact ⟨hfound, of_decide_eq_true hmem.2⟩

lemma sourced_reused {names : List String} {name : String}
    (shown : Shown s sources tables answers start n world (.reuse table names))
    (chosen : Picks answers (n + 1) names name) :
    Sourced s sources tables answers start n
      (.reused name (.storageArn s.storageCategory name)) := by
  obtain ⟨_, projectMeta, picked, loaded, rfl⟩ := shown
  obtain ⟨i, hi, hname⟩ := chosen
  obtain ⟨value, earlier, later, category, served, rfl⟩ := exists_resource hname
  exact .reused picked loaded category served hi

/-- An answer leads from what is known in a state to what is known in the next one. -/
lemma leads_step (reached : Reached s sources tables answers start (n + w.depth) w done world)
    (shown : Shown s sources tables answers start n world w)
    (traced : Traced s sources tables answers start n done)
    (hanswer : answers[n + w.depth]? = some a)
    (hstep : step? s sources tables w done world a = some st) :
    Leads s sources tables answers start (n + w.depth) st := by
  have onward {w' : Waiting} {events : List Event} (hdepth : w'.depth = 0)
      (hshown : ∀ m world, Shown s sources tables answers start m world w') :
      Leads s sources tables answers start (n + w.depth) ⟨events, world, .ask w' done⟩ := by
    rintro w'' done' ⟨⟩
    exact ⟨n + w.depth + 1, by rw [hdepth], hshown _ _, traced.mono (by omega)⟩
  have again : n ≤ n + w.depth + 1 := by omega
  cases a with
  | confirm yes =>
    cases w with
    | gate =>
      cases hstep
      cases yes with
      | true => exact onward rfl fun _ _ => trivial
      | false => rintro w' done' ⟨⟩
    | more =>
      cases hstep
      cases yes with
      | true => exact onward rfl fun _ _ => trivial
      | false => rintro w' done' ⟨⟩
    | _ => cases hstep
  | other => cases hstep
  | select i =>
    cases w with
    | gate => cases hstep
    | more => cases hstep
    | target =>
      rw [step?] at hstep
      split at hstep <;> cases hstep
      · exact onward rfl fun _ _ => trivial
      · exact onward rfl fun _ _ => trivial
    | source t =>
      rw [step?] at hstep
      split at hstep <;> cases hstep
      · exact leads_setBack traced again
      · next source hsource => exact leads_lookIn reached traced ⟨i, hanswer, hsource⟩
    | reuse t names =>
      rw [step?] at hstep
      split at hstep <;> cases hstep
      · exact leads_setBack traced again
      · next name hname =>
        exact leads_replace traced shown.1 (sourced_reused shown ⟨i, hanswer, hname⟩)
          (Nat.le_add_right n _)
    | region t regions =>
      rw [step?] at hstep
      split at hstep <;> cases hstep
      · exact leads_setBack traced again
      · next region hregion =>
        exact leads_offerDeployed shown.1 shown.2.1 shown.2.2 ⟨i, hanswer, hregion⟩ traced
    | deployed t found =>
      rw [step?] at hstep
      split at hstep <;> cases hstep
      · exact leads_setBack traced again
      · next d hd =>
        exact leads_replace traced shown.1 (sourced_deployed shown ⟨i, hanswer, hd⟩)
          (Nat.le_add_right n _)

/-- The search in a source does not stop the session. -/
lemma next_lookIn (source : TableSource) (o : Outcome) :
    (lookIn s sources source table done world).next ≠ .stop o := by
  cases source with
  | currentProject =>
    rw [lookIn, offerProjectTables]
    split
    · nofun
    · split <;> nofun
  | newResource =>
    rw [lookIn, addTable]
    split
    · nofun
    · dsimp only
      split <;> nofun
  | cloudResource =>
    rw [lookIn, offerRegions]
    split <;> nofun

/-- A session that stops has the overrides of its state, or none. -/
lemma stop_of_step {o : Outcome} (hstep : step? s sources tables w done world a = some st)
    (hstop : st.next = .stop o) : o.overrides = [] ∨ o.overrides = done := by
  cases a with
  | confirm yes =>
    cases w with
    | gate =>
      cases hstep
      cases yes <;> cases hstop
      exact Or.inl rfl
    | more =>
      cases hstep
      cases yes <;> cases hstop
      exact Or.inr rfl
    | _ => cases hstep
  | other => cases hstep
  | select i =>
    cases w with
    | gate => cases hstep
    | more => cases hstep
    | source t =>
      rw [step?] at hstep
      split at hstep <;> cases hstep
      · cases hstop
      · exact absurd hstop (next_lookIn _ o)
    | region t regions =>
      rw [step?] at hstep
      split at hstep <;> cases hstep
      · cases hstop
      · rw [offerDeployed] at hstop
        split at hstop <;> cases hstop
    | _ =>
      rw [step?] at hstep
      split at hstep <;> cases hstep <;> cases hstop

/-! ## Runs -/

lemma traced_of_proceed {failure : String → PromptError} {as : List Answer} {o : Outcome}
    (hleft : answers.drop (n + w.depth) = as)
    (reached : Reached s sources tables answers start (n + w.depth) w done world)
    (shown : Shown s sources tables answers start n world w)
    (traced : Traced s sources tables answers start n done)
    (h : (proceed s sources tables failure w done world as).outcome = .ok o) :
    ∃ n, Traced s sources tables answers start n o.overrides := by
  induction as generalizing n w done world with
  | nil => cases h
  | cons a as ih =>
    have hanswer : answers[n + w.depth]? = some a := by
      rw [← List.head?_drop, hleft, List.head?_cons]
    have hrest : answers.drop (n + w.depth + 1) = as := by
      rw [← List.tail_drop, hleft, List.tail_cons]
    rw [proceed] at h
    split at h
    · cases h
    · next st hstep =>
      split at h
      · next o' hstop =>
        obtain rfl := Except.ok.inj h
        rcases stop_of_step hstep hstop with hnone | hsame
        · rw [hnone]
          exact ⟨n, [], List.Pairwise.nil, List.forall_mem_nil _, .nil⟩
        · rw [hsame]
          exact ⟨n, traced⟩
      · next w' done' hnext =>
        obtain ⟨n', hposition, hshown, htraced⟩ :=
          leads_step reached shown traced hanswer hstep w' done' hnext
        have hreached := reached.next hanswer hstep hnext
        rw [← hposition] at hreached hrest
        exact ih hrest hreached hshown htraced h

end Invariant

/-- Every override of a finished session was found in a branch of its own that began at the question
for a source, with what the sources answered in this branch. -/
theorem run_traced (s : OverrideSettings) (sources : TableSources σ) (tables : List String)
    (operator : Operator) (start : World σ) (o : Outcome)
    (h : (run s sources tables operator start).outcome = .ok o) :
    ∃ ns : List Nat, ns.Pairwise (· < ·) ∧ List.Forall₂ (fun n o =>
      AsksAt s sources tables operator.answers start n (.source o.table) ∧
        Sourced s sources tables operator.answers start n o.replacement) ns o.overrides := by
  rw [run] at h
  split at h
  · obtain rfl := Except.ok.inj h
    exact ⟨[], List.Pairwise.nil, .nil⟩
  · next htables =>
    have reached : Reached s sources tables operator.answers start (0 + Waiting.gate.depth) .gate []
        start := ⟨[.detected tables.length], fun as => by rw [run, if_neg htables]; rfl⟩
    have nothing : Traced s sources tables operator.answers start 0 [] :=
      ⟨[], List.Pairwise.nil, List.forall_mem_nil _, .nil⟩
    obtain ⟨_, ns, increasing, _, hall⟩ :=
      traced_of_proceed List.drop_zero reached trivial nothing h
    exact ⟨ns, increasing, hall⟩

/-- Two regions with two tables each. -/
def scatteredTables : Inventory where
  regions := ["eu-west-1", "us-east-1"]
  tables := [⟨"posts", "arn:eu:posts", "eu-west-1"⟩, ⟨"blogs", "arn:us:blogs", "us-east-1"⟩,
    ⟨"notes", "arn:eu:notes", "eu-west-1"⟩, ⟨"users", "arn:us:users", "us-east-1"⟩]

/-- Sources that count how often they have been asked. The metadata can be loaded from the second
time on. -/
def reluctantSources : TableSources Nat where
  loadMeta _ n :=
    (if n = 0 then .error (.failed "busy")
      else .ok ⟨[("storage", [("uploads", .object [("service", .string "S3")]),
        ("dynamodb1", .object [("service", .string "DynamoDB")]),
        ("dynamodb2", .object [("service", .string "DynamoDB")])])]⟩, n + 1)
  regions _ n := (.ok scatteredTables.offeredRegions, n + 1)
  tables region _ n := (.ok (scatteredTables.tablesIn region), n)
  provision := some fun _ _ w =>
    (.ok ("dynamodb" ++ toString w.memory), { w with memory := w.memory + 1 })

theorem run_traced_reluctant :
    let answers : List Answer := [.confirm true, .select 0, .select 0, .select 0, .select 1,
      .confirm true, .select 1, .select 1, .confirm true, .select 2, .select 2, .select 1,
      .select 0, .confirm false]
    let s : OverrideSettings := {}
    let tables := ["BlogTable", "PostTable", "UserTable"]
    let start : World Nat := ⟨⟨[], []⟩, 0⟩
    let overrides : List TableOverride :=
      [⟨"BlogTable", .reused "dynamodb2" ⟨"storagedynamodb2", "Arn"⟩⟩,
        ⟨"PostTable", .added "dynamodb2" ⟨"storagedynamodb2", "Arn"⟩⟩,
        ⟨"UserTable", .deployed ⟨"blogs", "arn:us:blogs", "us-east-1"⟩⟩]
    (run s reluctantSources tables (.scripted answers) start).outcome = .ok ⟨true, overrides⟩ ∧
      reluctantSources.Records scatteredTables ∧
      ∃ ns : List Nat, ns.Pairwise (· < ·) ∧ List.Forall₂ (fun n o =>
        AsksAt s reluctantSources tables answers start n (.source o.table) ∧
          Sourced s reluctantSources tables answers start n o.replacement) ns overrides := by
  intro answers s tables start overrides
  have houtcome : (run s reluctantSources tables (.scripted answers) start).outcome =
      .ok ⟨true, overrides⟩ := by decide +kernel
  exact ⟨houtcome, fun _ _ _ => rfl,
    run_traced s reluctantSources tables (.scripted answers) start ⟨true, overrides⟩ houtcome⟩

end Session

end SchemaStack
