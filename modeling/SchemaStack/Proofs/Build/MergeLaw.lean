import SchemaStack.Proofs.Build.History
import Mathlib.Data.List.Nodup
/-!
# The merge law

The verdict on a run, read off its contributions alone: whether there is a document, the order of
its IDs, and the fault if there is none. Where contributions look at nothing, an ID that two stages
share is a collision in every order of the stages.
-/

namespace SchemaStack.Pipeline

/-- Stages whose contributions look at nothing and amend nothing. -/
def Fixed (k : Stage → Contribution) (ss : List Stage) : Prop :=
  ∀ st ∈ ss, (k st).amendments = [] ∧ ∀ c, ∃ a, st.contribute c = .ok (a, k st)

/-- No two stages bring the same ID. -/
def Apart (k : Stage → Contribution) (ss : List Stage) : Prop :=
  ss.Pairwise fun a b => ∀ id ∈ (k a).ids, id ∉ (k b).ids

lemma Apart.of_perm {k : Stage → Contribution} {ss ss' : List Stage} (perm : ss.Perm ss')
    (apart : Apart k ss) : Apart k ss' :=
  perm.pairwise apart fun h id hid hid' => h id hid' hid

lemma historyFrom_of_fixed {k : Stage → Contribution} {c : Context} {ss : List Stage}
    (fixed : Fixed k ss) :
    historyFrom c ss = ((startsFrom c ss).map Prod.fst).map fun st => (st.name, k st) := by
  rw [historyFrom, List.map_map]
  refine List.filterMap_eq_map_iff_forall_eq_some.mpr fun x hx => ?_
  obtain ⟨a, ha⟩ := (fixed x.1 (startsFrom_subset hx)).2 x.2
  simp [contributed?, ha]

lemma apart_of_consistent {k : Stage → Contribution} {ss : List Stage}
    (consistent : History.Consistent (ss.map fun st => (st.name, k st))) : Apart k ss := by
  have distinct : (ss.flatMap fun st => (k st).ids).Nodup := by
    simpa [History.ids, List.flatMap_map] using consistent.distinct
  exact (List.nodup_flatMap.mp distinct).2.imp fun h id hid hid' => h hid hid'

lemma names_history {p : Pipeline} {s : Schema}
    (contributes : ∀ x ∈ startsFrom (.start s) p.stages, ∃ r, x.1.contribute x.2 = .ok r)
    (all : (startsFrom (.start s) p.stages).map Prod.fst = p.stages) :
    (p.history s).map Prod.fst = p.names := by
  have hnames : ∀ x ∈ startsFrom (.start s) p.stages,
      (contributed? x).map Prod.fst = some x.1.name := by
    intro x hx
    obtain ⟨r, hr⟩ := contributes x hx
    simp [contributed?, hr]
  rw [history, historyFrom, List.map_filterMap,
    List.filterMap_eq_map_iff_forall_eq_some.mpr hnames, names]
  conv_rhs => rw [← all]
  exact (List.map_map ..).symm

lemma checkDirectives_of_perm {p q : Pipeline} {s : Schema} (perm : q.stages.Perm p.stages)
    (handled : p.checkDirectives s = .ok ()) : q.checkDirectives s = .ok () := by
  rw [checkDirectives_eq_ok_iff] at handled ⊢
  intro o ho x hx
  obtain ⟨spec, hspec, hmeans⟩ := handled o ho x hx
  exact ⟨spec, (perm.flatMap_right Stage.directives).mem_iff.mpr hspec, hmeans⟩

/-- A shared ID is a collision. -/
lemma collides_of_fixed {q : Pipeline} {s : Schema} {k : Stage → Contribution}
    (handled : q.checkDirectives s = .ok ()) (fixed : Fixed k q.stages)
    (shared : ¬ Apart k q.stages) :
    ∃ id first second, q.compileSchema s = .error (.collision id first second) := by
  have contributes : ∀ x ∈ startsFrom (.start s) q.stages, ∃ r, x.1.contribute x.2 = .ok r := by
    intro x hx
    obtain ⟨a, ha⟩ := (fixed x.1 (startsFrom_subset hx)).2 x.2
    exact ⟨(a, k x.1), ha⟩
  rw [compileSchema_eq_run handled]
  rcases runFrom_cases (Context.tracks_start s) History.consistent_nil contributes with
    ⟨c', _, _, consistent, all⟩ | ⟨e, hrun, refused⟩
  · rw [List.nil_append, historyFrom_of_fixed fixed, all] at consistent
    exact absurd (apart_of_consistent consistent) shared
  · rw [List.nil_append, historyFrom_of_fixed fixed] at refused
    rw [hrun]
    generalize hh : ((startsFrom (.start s) q.stages).map Prod.fst).map
      (fun st => (st.name, k st)) = h at refused
    cases refused with
    | collision => exact ⟨_, _, _, rfl⟩
    | @amendment earlier stage k' before after a _ _ hsplit _ _ =>
      have hlast : (stage, k') ∈ ((startsFrom (.start s) q.stages).map Prod.fst).map
          fun st => (st.name, k st) := by simp [hh]
      obtain ⟨st, hst, heq⟩ := List.mem_map.mp hlast
      obtain ⟨x, hx, rfl⟩ := List.mem_map.mp hst
      have hnone := (fixed x.1 (startsFrom_subset hx)).1
      rw [(Prod.mk.inj heq).2, hsplit] at hnone
      simp at hnone

/-- Compiling succeeds exactly when no ID comes twice and every amendment reaches an ID of a
strictly earlier stage. The document then has the contributed IDs in order, and otherwise the
fault is that of the first contribution that does not fit. -/
theorem compileSchema_judges_history {p : Pipeline} {s : Schema}
    (handled : p.checkDirectives s = .ok ())
    (contributes : ∀ x ∈ startsFrom (.start s) p.stages, ∃ r, x.1.contribute x.2 = .ok r) :
    ((∃ d, p.compileSchema s = .ok d) ↔ (p.history s).ids.Nodup ∧ (p.history s).Reaching) ∧
      (∀ d, p.compileSchema s = .ok d →
        (p.history s).map Prod.fst = p.names ∧ d.ids = (p.history s).ids) ∧
      (∀ e, p.compileSchema s = .error e → (p.history s).Refused e) ∧
      ∀ k, Fixed k p.stages → ¬ Apart k p.stages → ∀ q : Pipeline, q.stages.Perm p.stages →
        ∃ id first second, q.compileSchema s = .error (.collision id first second) := by
  have permuted : ∀ k, Fixed k p.stages → ¬ Apart k p.stages →
      ∀ q : Pipeline, q.stages.Perm p.stages →
        ∃ id first second, q.compileSchema s = .error (.collision id first second) := by
    intro k fixed shared q perm
    refine collides_of_fixed (k := k) (checkDirectives_of_perm perm handled) ?_ ?_
    · exact fun st hst => fixed st (perm.mem_iff.mp hst)
    · exact fun apart => shared (apart.of_perm perm)
  have hcompile := compileSchema_eq_run handled
  rcases runFrom_cases (Context.tracks_start s) History.consistent_nil contributes with
    ⟨c, hrun, tracks, consistent, all⟩ | ⟨e, hrun, refused⟩
  · rw [hrun] at hcompile
    rw [List.nil_append] at tracks consistent
    refine ⟨⟨fun _ => ⟨consistent.distinct, consistent.reaching⟩, fun _ => ⟨_, hcompile⟩⟩,
      ?_, ?_, permuted⟩
    · intro d hd
      rw [← Except.ok.inj (hcompile.symm.trans hd)]
      exact ⟨names_history contributes all, tracks.ids⟩
    · intro e he
      cases hcompile.symm.trans he
  · rw [hrun] at hcompile
    rw [List.nil_append] at refused
    refine ⟨⟨?_, ?_⟩, ?_, ?_, permuted⟩
    · rintro ⟨d, hd⟩
      cases hcompile.symm.trans hd
    · rintro ⟨distinct, reaching⟩
      exact absurd ⟨distinct, reaching⟩ (History.not_consistent_of_refused refused)
    · intro d hd
      cases hcompile.symm.trans hd
    · intro e' he'
      rw [← Except.error.inj (hcompile.symm.trans he')]
      exact refused

/-- A stage that adds one resource. -/
def adding (name id : String) : Stage where
  name := name
  contribute c := .ok (c.artifacts, { entries := [(id, ⟨.resolver, []⟩)] })

/-- A stage that amends every resource it finds. -/
def stamping (name : String) : Stage where
  name := name
  contribute c := .ok (c.artifacts,
    { amendments := c.document.ids.map fun id => ⟨id, "Stamp", .string name⟩ })

/-- The second stage amends what the first has added, and not what the third adds. -/
theorem compileSchema_stamped :
    let p : Pipeline := ⟨[adding "base" "A", stamping "stamp", adding "more" "B"], rfl⟩
    let s : Schema := ⟨[]⟩
    p.checkDirectives s = .ok () ∧
      (∀ x ∈ startsFrom (.start s) p.stages, ∃ r, x.1.contribute x.2 = .ok r) ∧
      ∃ d, p.compileSchema s = .ok d ∧ (p.history s).map Prod.fst = ["base", "stamp", "more"] ∧
        d.ids = (p.history s).ids ∧ (p.history s).ids = ["A", "B"] := by
  intro p s
  have handled : p.checkDirectives s = .ok () := rfl
  have contributes : ∀ x ∈ startsFrom (.start s) p.stages, ∃ r, x.1.contribute x.2 = .ok r := by
    rintro ⟨st, c⟩ hx
    have hst : st ∈ [adding "base" "A", stamping "stamp", adding "more" "B"] :=
      startsFrom_subset hx
    simp only [List.mem_cons, List.not_mem_nil, or_false] at hst
    rcases hst with rfl | rfl | rfl
    · exact ⟨_, rfl⟩
    · exact ⟨_, rfl⟩
    · exact ⟨_, rfl⟩
  refine ⟨handled, contributes, _, rfl, ?_⟩
  obtain ⟨hnames, hids⟩ := (compileSchema_judges_history handled contributes).2.1 _ rfl
  exact ⟨hnames, hids, rfl⟩

end SchemaStack.Pipeline
