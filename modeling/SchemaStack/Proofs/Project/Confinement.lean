import SchemaStack.Proofs.Filesystem.Changes
/-!
# What a session changes

The only thing that a session does to files is to set up new storage. Sources are confined to a
path if that puts a text there and changes no other files. Then no session changes other files, by
induction on the answers.
-/

namespace SchemaStack

open Filesystem (ChangedWithin)

variable {σ : Type}

/-- Setting up storage changes files at most where putting a text at the path would. A project on
files notes new storage in its metadata and does nothing else. -/
def TableSources.Confined (sources : TableSources σ) (p : Path) : Prop :=
  ∀ provision, sources.provision = some provision → ∀ provider service (w : World σ),
    ChangedWithin (w.files.footprint p) w.files (provision provider service w).2.files

namespace Filesystem

lemma changed_addStorage (fs : Filesystem) (p : Path) (category provider : String)
    (service : StorageService) :
    ChangedWithin (fs.footprint p) fs (fs.addStorage p category provider service).2 := by
  rw [addStorage]
  split
  · exact .refl _ _
  · split
    · exact .refl _ _
    · rename_i m _ _ name _
      have hwritten := fs.changed_writeAtomic p
        (m.add category name (.object
          [("service", .string service.label), ("providerPlugin", .string provider)])).toJson.pretty
      dsimp only
      split
      · rename_i e fs' hfailed
        rwa [hfailed] at hwritten
      · rename_i fs' hdone
        rwa [hdone] at hwritten

end Filesystem

/-- A project on files sets up storage in its metadata file. -/
lemma TableSources.confined_ofFiles (p : Path) (inventory : Inventory)
    (category : Option String) : (ofFiles p inventory category).Confined p := by
  intro provision hprovision provider service w
  obtain ⟨c, _, rfl⟩ := Option.map_eq_some_iff.mp hprovision
  exact Filesystem.changed_addStorage w.files p c provider service

namespace Session

variable (s : OverrideSettings) {sources : TableSources σ} {tables : List String} {p : Path}

/-! ## One answer -/

section Questions

variable (sources : TableSources σ) (table : String) (done : List TableOverride) (world : World σ)

lemma files_offerProjectTables :
    (offerProjectTables s sources table done world).world.files = world.files := by
  have hask := world.files_ask sources.loadMeta
  rw [offerProjectTables]
  split
  · rename_i e world' h
    rwa [h] at hask
  · rename_i m world' h
    rw [h] at hask
    split <;> exact hask

lemma files_offerRegions :
    (offerRegions sources table done world).world.files = world.files := by
  have hask := world.files_ask sources.regions
  rw [offerRegions]
  split
  · rename_i e world' h
    rwa [h] at hask
  · rename_i world' h
    rwa [h] at hask
  · rename_i regions world' _ h
    rwa [h] at hask

lemma files_offerDeployed (region : String) :
    (offerDeployed sources table region done world).world.files = world.files := by
  have hask := world.files_ask (sources.tables region)
  rw [offerDeployed]
  split
  · rename_i e world' h
    rwa [h] at hask
  · rename_i world' h
    rwa [h] at hask
  · rename_i found world' _ h
    rwa [h] at hask

end Questions

lemma changed_addTable (confined : sources.Confined p) (table : String)
    (done : List TableOverride) (world : World σ) :
    ChangedWithin (world.files.footprint p) world.files
      (addTable s sources table done world).world.files := by
  rw [addTable]
  split
  · exact .refl _ _
  · rename_i provision hprovision
    have hchanged := confined provision hprovision s.provider s.service world
    dsimp only
    split
    · rename_i e world' h
      rwa [h] at hchanged
    · rename_i name world' h
      rwa [h] at hchanged

/-- An answer leaves all files alone, unless it is to set up new storage. -/
lemma files_step?_or {w : Waiting} {done : List TableOverride} {world : World σ} {a : Answer}
    {st : Step σ} (h : step? s sources tables w done world a = some st) :
    st.world.files = world.files ∨ ∃ table, st = addTable s sources table done world := by
  have same : ∀ st' : Step σ, st'.world.files = world.files → some st' = some st →
      st.world.files = world.files ∨ ∃ table, st = addTable s sources table done world := by
    rintro st' hfiles heq
    obtain rfl := Option.some.inj heq
    exact Or.inl hfiles
  cases a with
  | other => cases h
  | confirm yes =>
    cases w with
    | gate => exact same _ rfl h
    | more => exact same _ rfl h
    | target | source | reuse | region | deployed => cases h
  | select i =>
    cases w with
    | gate | more => cases h
    | target =>
      rw [step?] at h
      split at h <;> exact same _ rfl h
    | source table =>
      rw [step?] at h
      split at h
      · exact same _ rfl h
      · rename_i source _
        cases source with
        | currentProject => exact same _ (files_offerProjectTables s sources table done world) h
        | newResource => exact Or.inr ⟨table, (Option.some.inj h).symm⟩
        | cloudResource => exact same _ (files_offerRegions sources table done world) h
    | reuse table names =>
      rw [step?] at h
      split at h <;> exact same _ rfl h
    | region table regions =>
      rw [step?] at h
      split at h
      · exact same _ rfl h
      · exact same _ (files_offerDeployed sources table done world _) h
    | deployed table found =>
      rw [step?] at h
      split at h <;> exact same _ rfl h

lemma changed_step? (confined : sources.Confined p) {w : Waiting} {done : List TableOverride}
    {world : World σ} {a : Answer} {st : Step σ}
    (h : step? s sources tables w done world a = some st) :
    ChangedWithin (world.files.footprint p) world.files st.world.files := by
  rcases files_step?_or s h with hsame | ⟨table, rfl⟩
  · rw [hsame]
    exact .refl _ _
  · exact changed_addTable s confined table done world

/-! ## All answers -/

lemma changed_proceed (confined : sources.Confined p) (failure : String → PromptError)
    (w : Waiting) (done : List TableOverride) (world : World σ) (as : List Answer) :
    ChangedWithin (world.files.footprint p) world.files
      (proceed s sources tables failure w done world as).world.files := by
  induction as generalizing w done world with
  | nil => exact .refl _ _
  | cons a as ih =>
    rw [proceed]
    dsimp only
    split
    · exact .refl _ _
    · rename_i st hstep
      have hchanged := changed_step? s confined hstep
      split
      · exact hchanged
      · rename_i w' done' _
        have hrest := ih w' done' st.world
        rw [hchanged.footprint_eq] at hrest
        exact hchanged.trans hrest

/-- A session changes files where its sources are confined to, and nowhere else. -/
theorem changed_run (confined : sources.Confined p) (operator : Operator) (world : World σ) :
    ChangedWithin (world.files.footprint p) world.files
      (run s sources tables operator world).world.files := by
  rw [run]
  split
  · exact .refl _ _
  · exact changed_proceed s confined operator.failure .gate [] world operator.answers

/-! ## Sessions that set nothing up -/

/-- New storage was asked for. -/
def SetsUp (events : List Event) : Prop :=
  ∃ provider service, .called (.provision provider service) ∈ events

lemma SetsUp.mono {events events' : List Event} (h : SetsUp events) (hsubset : events ⊆ events') :
    SetsUp events' := by
  obtain ⟨provider, service, hcalled⟩ := h
  exact ⟨provider, service, hsubset hcalled⟩

variable (sources tables)

end Session

end SchemaStack
