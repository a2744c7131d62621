import SchemaStack.Proofs.Build.History
/-!
# Merging in place

The merge as a program that changes a context entry by entry, and what it leaves behind. All checks
of a contribution come before the first change, so a context that refuses a contribution is as it
was before. A context that takes it keeps what it had in its place. That the entries are appended,
and none of them replaces a resource, rests on the owners and the document having the same IDs. This
holds of every context that merges lead to.
-/

namespace SchemaStack

namespace Context

/-- Programs that change a context and may stop with a fault. What they have changed by then
stays. -/
abbrev InPlace (α : Type) := ExceptT BuildError (StateM Context) α

def InPlace.runOn {α : Type} (x : InPlace α) (c : Context) : Except BuildError α × Context :=
  x.run c

/-- Takes one entry in under the name of its stage. -/
def enter (stage : String) (e : String × Resource) (c : Context) : Context :=
  { c with
    owners := c.owners.insert e.1 stage
    document := { c.document with resources := c.document.resources.insert e.1 e.2 } }

def carryOut (a : Amendment) (c : Context) : Context :=
  { c with document := amend c.document a }

def mergeInPlace (stage : String) (k : Contribution) : InPlace Unit := do
  let c ← get
  ofExcept (checkEntries c.owners stage [] k.entries)
  ofExcept (checkAmendments c.document stage k.amendments)
  for e in k.entries do
    modify (enter stage e)
  for a in k.amendments do
    modify (carryOut a)

/-- The contexts that merges lead to, with the contributions that they have taken. Stages register
artifacts between the merges. -/
inductive Reached : Context → History → Prop
  | start (s : Schema) : Reached (start s) []
  | registered {c : Context} {h : History} (a : Artifacts) :
      Reached c h → Reached { c with artifacts := a } h
  | merged {c c' : Context} {h : History} {stage : String} {k : Contribution} :
      Reached c h → c.merge stage k = .ok c' → Reached c' (h ++ [(stage, k)])

/-- The IDs with an owner are those of the document, and the owner is the stage whose contribution
brought the ID. -/
structure Owned (c : Context) (h : History) : Prop where
  distinct : c.document.ids.Nodup
  keys_owners : Entries.keys c.owners = c.document.ids
  owner_iff : ∀ id stage, c.owners.get? id = some stage ↔ ∃ k, (stage, k) ∈ h ∧ id ∈ k.ids

/-- What a context has become that has taken a contribution. -/
structure Takes (c : Context) (k : Contribution) (c' : Context) : Prop where
  schema : c'.schema = c.schema
  artifacts : c'.artifacts = c.artifacts
  formatVersion : c'.document.formatVersion = c.document.formatVersion
  /-- The resources from before come first, with their types, and then the entries. -/
  outline : c'.document.outline = c.document.outline ++ outlineOf k.entries
  /-- The properties from before come first, whatever their values are now. -/
  positions : ∀ id r, c.document.get? id = some r →
    ∃ r', c'.document.get? id = some r' ∧ Entries.keys r.properties <+: Entries.keys r'.properties
  entered : ∀ e ∈ k.entries, c'.document.get? e.1 = some e.2
  property : ∀ id key, c'.document.property? id key =
    ((lastAmendment? k.amendments id key).map Amendment.value).or
      (((c.document.get? id).or (Entries.get? k.entries id)).bind (·.property? key))

/-! ## The contexts that merges lead to -/

lemma Reached.tracks {c : Context} {h : History} (reached : c.Reached h) :
    c.Tracks h ∧ h.Consistent := by
  induction reached with
  | start s => exact ⟨tracks_start s, History.consistent_nil⟩
  | registered a _ ih => exact ⟨⟨ih.1.ids, ih.1.owner⟩, ih.2⟩
  | @merged c c' h stage k _ hm ih =>
    obtain ⟨tracks, consistent⟩ := ih
    rcases tracks.merge_cases consistent stage k with ⟨hok, extended⟩ | ⟨e, he, _⟩
    · obtain rfl := Except.ok.inj (hm.symm.trans hok)
      exact ⟨tracks.merged stage k, extended⟩
    · cases hm.symm.trans he

lemma Reached.keys_owners {c : Context} {h : History} (reached : c.Reached h) :
    Entries.keys c.owners = c.document.ids := by
  induction reached with
  | start s => rfl
  | registered a _ ih => exact ih
  | merged _ hm ih =>
    obtain ⟨_, rfl⟩ := merge_eq_ok_iff.mp hm
    rw [keys_owners_merged, ih]
    exact (ids_apply _ _).symm

/-- The invariant of a build: the owners and the document stay in step. -/
theorem Reached.owned {c : Context} {h : History} (reached : c.Reached h) : c.Owned h := by
  obtain ⟨tracks, consistent⟩ := reached.tracks
  refine ⟨tracks.ids ▸ consistent.distinct, reached.keys_owners, fun id stage => ?_⟩
  rw [tracks.owner, History.firstOwner?_eq_some_iff consistent.distinct]

lemma Reached.step {c c' : Context} {h : History} {st : Stage} (reached : c.Reached h)
    (hs : Pipeline.step c st = .ok c') : ∃ k, c'.Reached (h ++ [(st.name, k)]) := by
  obtain ⟨⟨a, k⟩, _, hm⟩ := bind_eq_ok hs
  exact ⟨k, (reached.registered a).merged hm⟩

/-- Whatever the stages of a run find has been reached by merges. -/
theorem Reached.of_mem_startsFrom {c : Context} {h : History} (reached : c.Reached h)
    {ss : List Stage} {x : Stage × Context} (hx : x ∈ Pipeline.startsFrom c ss) :
    ∃ h', x.2.Reached h' := by
  induction ss generalizing c h with
  | nil => cases hx
  | cons st ss ih =>
    rcases List.mem_cons.mp hx with rfl | hx
    · exact ⟨h, reached⟩
    · cases hs : Pipeline.step c st with
      | error e => rw [hs] at hx; cases hx
      | ok c' =>
        rw [hs] at hx
        obtain ⟨k, reached'⟩ := reached.step hs
        exact ih reached' hx

/-! ## The program and the merge -/

@[simp] lemma InPlace.runOn_bind {α β : Type} (x : InPlace α) (f : α → InPlace β) (c : Context) :
    (x >>= f).runOn c =
      match x.runOn c with
      | (.ok a, c') => (f a).runOn c'
      | (.error e, c') => (.error e, c') := by
  change (match x.runOn c with | (a, c') => ExceptT.bindCont f a c') = _
  rcases x.runOn c with ⟨r, c'⟩
  cases r <;> rfl

@[simp] lemma InPlace.runOn_get (c : Context) : (get : InPlace Context).runOn c = (.ok c, c) := rfl

@[simp] lemma InPlace.runOn_ofExcept {α : Type} (x : Except BuildError α) (c : Context) :
    (ofExcept x : InPlace α).runOn c = (x, c) := by
  cases x <;> rfl

lemma InPlace.runOn_forIn_modify {α : Type} (f : α → Context → Context) (xs : List α)
    (c : Context) :
    (forIn xs PUnit.unit fun x _ => do
      modify (f x)
      pure (ForInStep.yield PUnit.unit) : InPlace PUnit).runOn c =
      (.ok PUnit.unit, xs.foldl (fun c x => f x c) c) := by
  induction xs generalizing c with
  | nil => rfl
  | cons x xs ih =>
    rw [List.forIn_cons, runOn_bind, runOn_bind]
    exact ih (f x c)

lemma foldl_enter (stage : String) (es : Entries Resource) (c : Context) :
    es.foldl (fun c e => enter stage e c) c =
      { c with
        owners := es.foldl (fun os e => os.insert e.1 stage) c.owners
        document := { c.document with
          resources := es.foldl (fun rs e => rs.insert e.1 e.2) c.document.resources } } := by
  induction es generalizing c with
  | nil => rfl
  | cons e es ih => exact ih (enter stage e c)

lemma foldl_carryOut (as : List Amendment) (c : Context) :
    as.foldl (fun c a => carryOut a c) c = { c with document := as.foldl amend c.document } := by
  induction as generalizing c with
  | nil => rfl
  | cons a as ih => exact ih (carryOut a c)

/-- The changes made one by one are the merge, as no entry replaces anything. -/
lemma foldl_changes {c : Context} {h : History} {k : Contribution} (owned : c.Owned h)
    (accepts : c.Accepts k) (stage : String) :
    k.amendments.foldl (fun c a => carryOut a c)
      (k.entries.foldl (fun c e => enter stage e c) c) = c.merged stage k := by
  have hresources : (c.document.ids ++ k.ids).Nodup := by
    refine List.nodup_append.mpr ⟨owned.distinct, accepts.distinct, ?_⟩
    rintro id hid _ hid' rfl
    exact accepts.fresh id hid' (owned.keys_owners ▸ hid)
  have howners : (Entries.keys c.owners ++ k.ids).Nodup := owned.keys_owners ▸ hresources
  rw [foldl_carryOut, foldl_enter, Entries.foldl_insert_of_nodup _ _ _ _ hresources,
    Entries.foldl_insert_of_nodup Prod.fst (fun _ => stage) _ _ howners]
  simp [merged, apply]

/-- In place or not, a merge has the same outcome, and one that fails has changed nothing. -/
lemma runOn_mergeInPlace {c : Context} {h : History} (owned : c.Owned h) (stage : String)
    (k : Contribution) :
    (mergeInPlace stage k).runOn c =
      match c.merge stage k with
      | .error e => (.error e, c)
      | .ok c' => (.ok (), c') := by
  simp only [mergeInPlace, InPlace.runOn_bind, InPlace.runOn_get, InPlace.runOn_ofExcept]
  cases hm : c.merge stage k with
  | error e =>
    rcases merge_eq_error hm with hentries | ⟨hentries, hamendments⟩
    · simp only [hentries]
    · simp only [hentries, hamendments]
  | ok c' =>
    obtain ⟨accepts, rfl⟩ := merge_eq_ok_iff.mp hm
    have hentries : checkEntries c.owners stage [] k.entries = .ok () :=
      checkEntries_eq_ok_iff.mpr ⟨fun id hid => ⟨accepts.fresh id hid, List.not_mem_nil⟩,
        accepts.distinct⟩
    have hamendments : checkAmendments c.document stage k.amendments = .ok () :=
      checkAmendments_eq_ok_iff.mpr accepts.reached
    simp only [hentries, hamendments, InPlace.runOn_forIn_modify,
      ← foldl_changes owned accepts stage]
    rfl

/-! ## What a merge makes of a context -/

lemma takes_merged {c : Context} {h : History} {k : Contribution} (owned : c.Owned h)
    (accepts : c.Accepts k) (stage : String) : c.Takes k (c.merged stage k) where
  schema := rfl
  artifacts := rfl
  formatVersion := formatVersion_foldl_amend k.amendments _
  outline := outline_apply c.document k
  positions := by
    intro id r hr
    refine ⟨amended k.amendments id r, ?_, keys_prefix_amended _ _ _⟩
    change (apply c.document k).get? id = _
    rw [get?_apply, hr]
    rfl
  entered := by
    rintro ⟨id, r⟩ he
    have hid : id ∉ c.document.ids := owned.keys_owners ▸
      accepts.fresh id (List.mem_map.mpr ⟨(id, r), he, rfl⟩)
    have hnone : c.document.get? id = none := Entries.get?_eq_none_iff.mpr hid
    have untargeted : ∀ a ∈ k.amendments, a.target ≠ id := fun a ha heq =>
      hid (heq ▸ accepts.reached a ha)
    change (apply c.document k).get? id = _
    rw [get?_apply, hnone, Entries.get?_of_mem accepts.distinct he]
    exact congrArg some (amended_of_untargeted untargeted r)
  property := by
    intro id key
    change ((apply c.document k).get? id).bind _ = _
    rw [get?_apply]
    cases hbase : (c.document.get? id).or (Entries.get? k.entries id) with
    | some r => exact property?_amended k.amendments id key r
    | none =>
      have hid : id ∉ c.document.ids :=
        Entries.get?_eq_none_iff.mp (Option.or_eq_none_iff.mp hbase).1
      have hlast : lastAmendment? k.amendments id key = none :=
        lastAmendment?_eq_none_iff.mpr fun a ha heq => absurd (heq ▸ accepts.reached a ha) hid
      rw [hlast]
      rfl

/-- A merge in place fails and leaves the context as it was, or it takes the contribution as a whole
and the owners and the document stay in step. -/
theorem merge_all_or_nothing {c : Context} {h : History} (reached : c.Reached h) (stage : String)
    (k : Contribution) :
    (∃ e, c.merge stage k = .error e ∧ (mergeInPlace stage k).runOn c = (.error e, c)) ∨
      ∃ c', c.merge stage k = .ok c' ∧ (mergeInPlace stage k).runOn c = (.ok (), c') ∧
        c.Takes k c' ∧ c'.Owned (h ++ [(stage, k)]) := by
  have hrun := runOn_mergeInPlace reached.owned stage k
  cases hm : c.merge stage k with
  | error e =>
    rw [hm] at hrun
    exact Or.inl ⟨e, rfl, hrun⟩
  | ok c' =>
    rw [hm] at hrun
    refine Or.inr ⟨c', rfl, hrun, ?_, (reached.merged hm).owned⟩
    obtain ⟨accepts, rfl⟩ := merge_eq_ok_iff.mp hm
    exact takes_merged reached.owned accepts stage

/-- A table that is amended by a later stage, twice in one property, and is refused when it comes a
second time. -/
theorem merge_all_or_nothing_notes :
    let notes : Contribution :=
      { entries := [("Notes", ⟨.table, [("Name", .string "notes"), ("Kind", .string "plain")]⟩)] }
    let renames : Contribution :=
      { entries := [("NotesRole", ⟨.role, []⟩)]
        amendments := [⟨"Notes", "Name", .string "first"⟩, ⟨"Notes", "Owner", .string "me"⟩,
          ⟨"Notes", "Name", .string "last"⟩] }
    let c := (start ⟨[]⟩).merged "tables" notes
    c.Reached [("tables", notes)] ∧
      (∃ c', c.merge "names" renames = .ok c' ∧ c.Takes renames c' ∧
        c'.document.ids = ["Notes", "NotesRole"] ∧
        c'.document.property? "Notes" "Name" = some (.string "last") ∧
        c'.document.property? "Notes" "Kind" = some (.string "plain")) ∧
      (mergeInPlace "names" notes).runOn c = (.error (.collision "Notes" "tables" "names"), c) := by
  intro notes renames c
  have reached : c.Reached [("tables", notes)] := (Reached.start ⟨[]⟩).merged rfl
  refine ⟨reached, ?_, ?_⟩
  · rcases merge_all_or_nothing reached "names" renames with ⟨e, he, _⟩ | ⟨c', hm, _, takes, _⟩
    · cases he
    · refine ⟨c', hm, takes, ?_, ?_, ?_⟩
      · rw [← Document.map_fst_outline, takes.outline]
        rfl
      · rw [takes.property]
        rfl
      · rw [takes.property]
        rfl
  · rcases merge_all_or_nothing reached "names" notes with ⟨e, he, hrun⟩ | ⟨c', hm, _⟩
    · rw [hrun, ← Except.error.inj he]
    · cases hm

end Context

end SchemaStack
