import SchemaStack.Proofs.Build.Directives
import SchemaStack.Proofs.Build.Merge
/-!
# What a run makes of its contributions

A run is judged by the contributions that its stages make, in order. It ends with a document
exactly when no ID comes twice and every amendment reaches an ID of a strictly earlier stage. The
document then has the contributed IDs, and otherwise the fault is that of the first contribution
that does not fit. What the stages look at to make their contributions is left open.
-/

namespace SchemaStack

/-- Contributions in the order they were made, each under the name of its stage. -/
abbrev History := List (String × Contribution)

namespace History

def ids (h : History) : List String := h.flatMap fun e => e.2.ids

/-- The stage that was the first to contribute an ID. -/
def firstOwner? (h : History) (id : String) : Option String :=
  (h.find? fun e => e.2.ids.contains id).map Prod.fst

/-- Every amendment reaches an ID of a strictly earlier contribution. -/
def Reaching (h : History) : Prop :=
  ∀ earlier e later, h = earlier ++ e :: later → ∀ a ∈ e.2.amendments, a.target ∈ ids earlier

structure Consistent (h : History) : Prop where
  distinct : h.ids.Nodup
  reaching : h.Reaching

/-- The fault of a history whose last contribution is the first that does not fit. A repeated ID
counts before an amendment that reaches nothing. -/
inductive Refused : History → BuildError → Prop
  | collision {earlier : History} {stage first id : String} {k : Contribution}
      {before after : Entries Resource} {r : Resource} :
      Consistent earlier → k.entries = before ++ (id, r) :: after →
      (ids earlier ++ Entries.keys before).Nodup → id ∈ ids earlier ++ Entries.keys before →
      firstOwner? (earlier ++ [(stage, k)]) id = some first →
      Refused (earlier ++ [(stage, k)]) (.collision id first stage)
  | amendment {earlier : History} {stage : String} {k : Contribution}
      {before after : List Amendment} {a : Amendment} :
      Consistent earlier → (ids (earlier ++ [(stage, k)])).Nodup →
      k.amendments = before ++ a :: after → (∀ b ∈ before, b.target ∈ ids earlier) →
      a.target ∉ ids earlier →
      Refused (earlier ++ [(stage, k)]) (.amendment stage a.target)

lemma ids_snoc (h : History) (stage : String) (k : Contribution) :
    ids (h ++ [(stage, k)]) = ids h ++ k.ids := by
  simp [ids]

lemma consistent_nil : Consistent [] where
  distinct := List.nodup_nil
  reaching := by
    intro earlier e later h
    simp at h

lemma firstOwner?_snoc (h : History) (stage : String) (k : Contribution) (id : String) :
    firstOwner? (h ++ [(stage, k)]) id =
      (firstOwner? h id).or (if id ∈ k.ids then some stage else none) := by
  rw [firstOwner?, List.find?_append, firstOwner?]
  cases hf : h.find? fun e => e.2.ids.contains id with
  | some e => simp
  | none => by_cases hid : id ∈ k.ids <;> simp [hid]

lemma firstOwner?_eq_none_iff {h : History} {id : String} :
    firstOwner? h id = none ↔ id ∉ ids h := by
  simp [firstOwner?, ids]

/-- Where no ID comes twice, the first stage to contribute an ID is the only one. -/
lemma firstOwner?_eq_some_iff {h : History} (distinct : h.ids.Nodup) {id stage : String} :
    firstOwner? h id = some stage ↔ ∃ k, (stage, k) ∈ h ∧ id ∈ k.ids := by
  induction h with
  | nil => simp [firstOwner?]
  | cons e h ih =>
    obtain ⟨_, rest, apart⟩ := List.nodup_append.mp (show (e.2.ids ++ ids h).Nodup from distinct)
    by_cases hid : id ∈ e.2.ids
    · have hnone : ∀ k, (stage, k) ∈ h → id ∉ k.ids := fun k hk hk' =>
        apart id hid id (List.mem_flatMap.mpr ⟨(stage, k), hk, hk'⟩) rfl
      have hfirst : firstOwner? (e :: h) id = some e.1 := by simp [firstOwner?, hid]
      rw [hfirst, Option.some.injEq]
      constructor
      · rintro rfl
        exact ⟨e.2, List.mem_cons_self, hid⟩
      · rintro ⟨k, hk, hk'⟩
        rcases List.mem_cons.mp hk with rfl | hk
        · rfl
        · exact absurd hk' (hnone k hk)
    · have hlater : firstOwner? (e :: h) id = firstOwner? h id := by simp [firstOwner?, hid]
      rw [hlater, ih rest]
      constructor
      · rintro ⟨k, hk, hk'⟩
        exact ⟨k, List.mem_cons_of_mem _ hk, hk'⟩
      · rintro ⟨k, hk, hk'⟩
        rcases List.mem_cons.mp hk with rfl | hk
        · exact absurd hk' hid
        · exact ⟨k, hk, hk'⟩

/-- One more contribution keeps a history consistent if its IDs are new and its amendments reach
what was there. -/
lemma consistent_snoc {h : History} {stage : String} {k : Contribution} (consistent : Consistent h)
    (distinct : (ids h ++ k.ids).Nodup) (reached : ∀ a ∈ k.amendments, a.target ∈ ids h) :
    Consistent (h ++ [(stage, k)]) where
  distinct := (ids_snoc h stage k).symm ▸ distinct
  reaching := by
    intro earlier e later hsplit a ha
    rcases List.eq_nil_or_concat later with rfl | ⟨init, last, rfl⟩
    · obtain ⟨rfl, he⟩ := List.append_inj' hsplit rfl
      have hsame : (stage, k) = e := (List.cons.inj he).1
      subst hsame
      exact reached a ha
    · have hinit : h ++ [(stage, k)] = (earlier ++ e :: init) ++ [last] := by
        simpa using hsplit
      exact consistent.reaching earlier e init (List.append_inj' hinit rfl).1 a ha

lemma not_consistent_of_refused {h : History} {e : BuildError} (refused : Refused h e) :
    ¬ Consistent h := by
  intro consistent
  cases refused with
  | @collision earlier stage first id k before after r _ hsplit _ repeated _ =>
    have hids : ids (earlier ++ [(stage, k)]) =
        (ids earlier ++ Entries.keys before) ++ id :: Entries.keys after := by
      rw [ids_snoc, Contribution.ids, hsplit]
      simp
    have distinct := hids ▸ consistent.distinct
    exact (List.nodup_append.mp distinct).2.2 id repeated id List.mem_cons_self rfl
  | @amendment earlier stage k before after a _ _ hsplit _ missing =>
    exact missing (consistent.reaching earlier (stage, k) [] rfl a (by simp [hsplit]))

end History

/-- A context that holds what a history has brought. -/
structure Context.Tracks (c : Context) (h : History) : Prop where
  ids : c.document.ids = h.ids
  owner : ∀ id, c.owners.get? id = h.firstOwner? id

namespace Context

lemma tracks_start (s : Schema) : (start s).Tracks [] where
  ids := rfl
  owner := fun _ => rfl

lemma Tracks.fresh_iff {c : Context} {h : History} (tracks : c.Tracks h) {id : String} :
    id ∉ Entries.keys c.owners ↔ id ∉ h.ids := by
  rw [← Entries.get?_eq_none_iff, tracks.owner, History.firstOwner?_eq_none_iff]

lemma Tracks.merged {c : Context} {h : History} (tracks : c.Tracks h) (stage : String)
    (k : Contribution) : (c.merged stage k).Tracks (h ++ [(stage, k)]) where
  ids := by
    rw [History.ids_snoc, ← tracks.ids]
    exact ids_apply c.document k
  owner := by
    intro id
    have hstage : Entries.get? (k.entries.map fun e => (e.1, stage)) id =
        if id ∈ k.ids then some stage else none := by
      rw [Entries.get?_map (fun _ => stage)]
      by_cases hid : id ∈ k.ids
      · obtain ⟨r, hr⟩ := Entries.exists_get?_of_mem_keys hid
        simp [hr, hid]
      · rw [Entries.get?_eq_none_iff.mpr hid, if_neg hid]
        rfl
    rw [History.firstOwner?_snoc, ← tracks.owner, ← hstage]
    exact Entries.get?_append _ _ _

/-- Merging extends the history or ends the run with the fault of the extended history. -/
lemma Tracks.merge_cases {c : Context} {h : History} (tracks : c.Tracks h)
    (consistent : h.Consistent) (stage : String) (k : Contribution) :
    (c.merge stage k = .ok (c.merged stage k) ∧ (h ++ [(stage, k)]).Consistent) ∨
      ∃ e, c.merge stage k = .error e ∧ History.Refused (h ++ [(stage, k)]) e := by
  cases hm : c.merge stage k with
  | ok c' =>
    obtain ⟨accepts, rfl⟩ := merge_eq_ok_iff.mp hm
    refine Or.inl ⟨rfl, History.consistent_snoc consistent ?_ ?_⟩
    · refine List.nodup_append.mpr ⟨consistent.distinct, accepts.distinct, ?_⟩
      rintro id hid _ hid' rfl
      exact tracks.fresh_iff.mp (accepts.fresh id hid') hid
    · intro a ha
      exact tracks.ids ▸ accepts.reached a ha
  | error e =>
    refine Or.inr ⟨e, rfl, ?_⟩
    rcases merge_eq_error hm with hentries | ⟨hentries, hamendments⟩
    · obtain ⟨before, id, r, after, hsplit, hbefore, hold, rfl⟩ := checkEntries_eq_error hentries
      obtain ⟨fresh, distinct⟩ := checkEntries_eq_ok_iff.mp hbefore
      have hmem : id ∈ k.ids := by simp [Contribution.ids, hsplit]
      refine .collision consistent hsplit ?_ ?_ ?_
      · refine List.nodup_append.mpr ⟨consistent.distinct, distinct, ?_⟩
        rintro j hj _ hj' rfl
        exact tracks.fresh_iff.mp (fresh j hj').1 hj
      · by_cases hid : id ∈ h.ids
        · exact List.mem_append_left _ hid
        · have hnone : c.owners.get? id = none :=
            Entries.get?_eq_none_iff.mpr (tracks.fresh_iff.mpr hid)
          exact List.mem_append_right _ ((hold hnone).resolve_left List.not_mem_nil)
      · rw [History.firstOwner?_snoc, if_pos hmem, ← tracks.owner]
        cases c.owners.get? id <;> rfl
    · obtain ⟨fresh, distinct⟩ := checkEntries_eq_ok_iff.mp hentries
      obtain ⟨before, a, after, hsplit, hreached, hmissing, rfl⟩ :=
        checkAmendments_eq_error hamendments
      rw [tracks.ids] at hmissing
      refine .amendment consistent ?_ hsplit (fun b hb => tracks.ids ▸ hreached b hb) hmissing
      rw [History.ids_snoc]
      refine List.nodup_append.mpr ⟨consistent.distinct, distinct, ?_⟩
      rintro id hid _ hid' rfl
      exact tracks.fresh_iff.mp (fresh id hid').1 hid

end Context

namespace Pipeline

lemma startsFrom_subset {c : Context} {ss : List Stage} {x : Stage × Context}
    (h : x ∈ startsFrom c ss) : x.1 ∈ ss := by
  induction ss generalizing c with
  | nil => cases h
  | cons st ss ih =>
    rcases List.mem_cons.mp h with rfl | h
    · exact List.mem_cons_self
    · cases hs : step c st with
      | error e => rw [hs] at h; cases h
      | ok c' => rw [hs] at h; exact List.mem_cons_of_mem _ (ih h)

/-- What a stage contributes to the context that it finds, under its name. -/
def contributed? (x : Stage × Context) : Option (String × Contribution) :=
  match x.1.contribute x.2 with
  | .error _ => none
  | .ok r => some (x.1.name, r.2)

/-- The contributions of the stages that start. -/
def historyFrom (c : Context) (ss : List Stage) : History :=
  (startsFrom c ss).filterMap contributed?

/-- The contributions that are made in the course of compiling a schema. -/
def history (p : Pipeline) (s : Schema) : History := historyFrom (.start s) p.stages

lemma step_eq {c : Context} (st : Stage) {a : Artifacts} {k : Contribution}
    (h : st.contribute c = .ok (a, k)) :
    step c st = ({ c with artifacts := a }).merge st.name k := by
  rw [step, h]
  rfl

lemma exists_of_step {c c' : Context} {st : Stage} (h : step c st = .ok c') :
    ∃ a k, st.contribute c = .ok (a, k) ∧ ({ c with artifacts := a } : Context).Accepts k ∧
      c' = ({ c with artifacts := a } : Context).merged st.name k := by
  obtain ⟨⟨a, k⟩, hk, hm⟩ := bind_eq_ok h
  exact ⟨a, k, hk, Context.merge_eq_ok_iff.mp hm⟩

lemma historyFrom_cons {c : Context} {st : Stage} {ss : List Stage} {a : Artifacts}
    {k : Contribution} (h : st.contribute c = .ok (a, k)) :
    historyFrom c (st :: ss) =
      (st.name, k) ::
        match step c st with
        | .error _ => []
        | .ok c' => historyFrom c' ss := by
  cases hs : step c st <;> simp [historyFrom, startsFrom, contributed?, h, hs]

/-- A run over contributions that are all made either keeps the history consistent to its end or
stops with the fault of the history. -/
lemma runFrom_cases {c : Context} {past : History} (tracks : c.Tracks past)
    (consistent : past.Consistent) {ss : List Stage}
    (contributes : ∀ x ∈ startsFrom c ss, ∃ r, x.1.contribute x.2 = .ok r) :
    (∃ c', runFrom c ss = .ok c' ∧ c'.Tracks (past ++ historyFrom c ss) ∧
      (past ++ historyFrom c ss).Consistent ∧ (startsFrom c ss).map Prod.fst = ss) ∨
      ∃ e, runFrom c ss = .error e ∧ History.Refused (past ++ historyFrom c ss) e := by
  induction ss generalizing c past with
  | nil =>
    refine Or.inl ⟨c, rfl, ?_, ?_, rfl⟩
    · simpa [historyFrom, startsFrom] using tracks
    · simpa [historyFrom, startsFrom] using consistent
  | cons st ss ih =>
    obtain ⟨⟨a, k⟩, hk⟩ := contributes (st, c) (by simp [startsFrom])
    have here : ({ c with artifacts := a } : Context).Tracks past := ⟨tracks.ids, tracks.owner⟩
    rw [historyFrom_cons hk]
    rcases here.merge_cases consistent st.name k with ⟨hm, extended⟩ | ⟨e, hm, refused⟩
    · have tracked := here.merged st.name k
      generalize ({ c with artifacts := a } : Context).merged st.name k = next at hm tracked
      have hs : step c st = .ok next := (step_eq st hk).trans hm
      have rest : ∀ x ∈ startsFrom next ss, ∃ r, x.1.contribute x.2 = .ok r := fun x hx =>
        contributes x (by simpa [startsFrom, hs] using Or.inr hx)
      have hassoc : past ++ (st.name, k) :: historyFrom next ss =
          (past ++ [(st.name, k)]) ++ historyFrom next ss := by simp
      simp only [runFrom, startsFrom, hs, List.map_cons, hassoc]
      rcases ih tracked extended rest with ⟨c', hrun, htracks, hconsistent, hall⟩ | refused
      · exact Or.inl ⟨c', hrun, htracks, hconsistent, by rw [hall]⟩
      · exact Or.inr refused
    · have hs : step c st = .error e := (step_eq st hk).trans hm
      simp only [runFrom, hs]
      exact Or.inr ⟨e, rfl, refused⟩

lemma compileSchema_eq_run {p : Pipeline} {s : Schema} (handled : p.checkDirectives s = .ok ()) :
    p.compileSchema s = (runFrom (.start s) p.stages).map Context.document := by
  rw [compileSchema, handled]

end Pipeline

end SchemaStack
