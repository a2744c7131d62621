import SchemaStack.Build.Context
import SchemaStack.Proofs.Entries
import SchemaStack.Proofs.Fallible
/-!
# Merging one contribution

When a contribution is accepted, what the document is then, and which fault is reported when it is
not. Amendments leave the IDs of a document and the types of its resources alone; a property is
what the amendments of that property say where they agree.
-/

namespace SchemaStack

def Contribution.ids (k : Contribution) : List String := Entries.keys k.entries

/-- The IDs of entries, each with the type of its resource. -/
def outlineOf (es : Entries Resource) : List (String × ResourceType) :=
  es.map fun e => (e.1, e.2.type)

@[simp] lemma outlineOf_append (es fs : Entries Resource) :
    outlineOf (es ++ fs) = outlineOf es ++ outlineOf fs := List.map_append

def Document.outline (d : Document) : List (String × ResourceType) := outlineOf d.resources

lemma Document.map_fst_outline (d : Document) : d.outline.map Prod.fst = d.ids := by
  rw [outline, outlineOf, List.map_map]
  rfl

namespace Context

/-! ## Amendments -/

/-- A resource after the amendments of its ID, in order. -/
def amended (as : List Amendment) (id : String) (r : Resource) : Resource :=
  as.foldl (fun r a => if a.target = id then r.set a.property a.value else r) r

lemma amended_cons (a : Amendment) (as : List Amendment) (id : String) (r : Resource) :
    amended (a :: as) id r =
      amended as id (if a.target = id then r.set a.property a.value else r) := rfl

lemma type_amended (as : List Amendment) (id : String) (r : Resource) :
    (amended as id r).type = r.type := by
  induction as generalizing r with
  | nil => rfl
  | cons a as ih =>
    rw [amended_cons, ih]
    split <;> rfl

lemma property?_set (r : Resource) (key key' : String) (v : Json) :
    (r.set key v).property? key' = if key = key' then some v else r.property? key' :=
  Entries.get?_insert r.properties key key' v

lemma amended_of_untargeted {as : List Amendment} {id : String}
    (untargeted : ∀ a ∈ as, a.target ≠ id) (r : Resource) : amended as id r = r := by
  induction as generalizing r with
  | nil => rfl
  | cons a as ih =>
    rw [amended_cons, if_neg (untargeted a List.mem_cons_self)]
    exact ih (fun b hb => untargeted b (List.mem_cons_of_mem _ hb)) r

/-- The last of the amendments of a property. -/
def lastAmendment? (as : List Amendment) (id key : String) : Option Amendment :=
  as.reverse.find? fun a => a.target = id ∧ a.property = key

lemma amended_concat (as : List Amendment) (a : Amendment) (id : String) (r : Resource) :
    amended (as ++ [a]) id r =
      if a.target = id then (amended as id r).set a.property a.value else amended as id r := by
  rw [amended, List.foldl_append]
  rfl

/-- An amendment of the property takes the place of those before it. -/
lemma lastAmendment?_concat (as : List Amendment) (a : Amendment) (id key : String) :
    lastAmendment? (as ++ [a]) id key =
      if a.target = id ∧ a.property = key then some a else lastAmendment? as id key := by
  by_cases h : a.target = id ∧ a.property = key <;> simp [lastAmendment?, h]

/-- The last amendment of a property decides, and a property without one is as before. -/
lemma property?_amended (as : List Amendment) (id key : String) (r : Resource) :
    (amended as id r).property? key =
      ((lastAmendment? as id key).map Amendment.value).or (r.property? key) := by
  induction as using List.reverseRecOn with
  | nil => rfl
  | append_singleton as a ih =>
    rw [amended_concat, lastAmendment?_concat]
    by_cases ht : a.target = id
    · by_cases hp : a.property = key <;> simp [ht, hp, property?_set, ih]
    · simp [ht, ih]

lemma lastAmendment?_eq_none_iff {as : List Amendment} {id key : String} :
    lastAmendment? as id key = none ↔ ∀ a ∈ as, a.target = id → a.property ≠ key := by
  simp [lastAmendment?]

lemma of_lastAmendment? {as : List Amendment} {id key : String} {a : Amendment}
    (h : lastAmendment? as id key = some a) : a ∈ as ∧ a.target = id ∧ a.property = key :=
  ⟨List.mem_reverse.mp (List.mem_of_find?_eq_some h), by simpa using List.find?_some h⟩

lemma property?_amended_of_untouched {as : List Amendment} {id key : String}
    (untouched : ∀ a ∈ as, a.target = id → a.property ≠ key) (r : Resource) :
    (amended as id r).property? key = r.property? key := by
  rw [property?_amended, lastAmendment?_eq_none_iff.mpr untouched]
  rfl

/-- Where all amendments of a property agree on its value, it has that value. -/
lemma property?_amended_of_agree {as : List Amendment} {id key : String} {v : Json}
    (present : ∃ a ∈ as, a.target = id ∧ a.property = key)
    (agree : ∀ a ∈ as, a.target = id → a.property = key → a.value = v) (r : Resource) :
    (amended as id r).property? key = some v := by
  obtain ⟨a, ha, ht, hp⟩ := present
  rw [property?_amended]
  cases hl : lastAmendment? as id key with
  | none => exact absurd hp (lastAmendment?_eq_none_iff.mp hl a ha ht)
  | some b =>
    obtain ⟨hb, hbt, hbp⟩ := of_lastAmendment? hl
    simp [agree b hb hbt hbp]

/-- Amending keeps the properties that are there in their places. -/
lemma keys_prefix_amended (as : List Amendment) (id : String) (r : Resource) :
    Entries.keys r.properties <+: Entries.keys (amended as id r).properties := by
  induction as generalizing r with
  | nil => exact List.prefix_rfl
  | cons a as ih =>
    rw [amended_cons]
    refine List.IsPrefix.trans ?_ (ih _)
    split
    · rw [Resource.set, Entries.keys_insert]
      split
      · exact List.prefix_rfl
      · exact List.prefix_append _ _
    · exact List.prefix_rfl

/-! ## The document after a contribution -/

lemma ids_foldl_amend (as : List Amendment) (d : Document) : (as.foldl amend d).ids = d.ids := by
  induction as generalizing d with
  | nil => rfl
  | cons a as ih => exact (ih (amend d a)).trans (Entries.keys_modify _ _ _)

lemma get?_foldl_amend (as : List Amendment) (d : Document) (id : String) :
    (as.foldl amend d).get? id = (d.get? id).map (amended as id) := by
  induction as generalizing d with
  | nil => exact Option.map_id'.symm
  | cons a as ih =>
    rw [List.foldl_cons, ih]
    change (Entries.get? (Entries.modify _ d.resources a.target) id).map _ = _
    rw [Entries.get?_modify]
    by_cases h : a.target = id
    · rw [if_pos h, Option.map_map]
      exact congrArg (Option.map · _) (funext fun r => by simp [amended_cons, h])
    · rw [if_neg h]
      exact congrArg (Option.map · _) (funext fun r => by simp [amended_cons, h])

lemma outline_amend (d : Document) (a : Amendment) : (amend d a).outline = d.outline := by
  change outlineOf (Entries.modify _ d.resources a.target) = outlineOf d.resources
  induction d.resources with
  | nil => rfl
  | cons e es ih =>
    by_cases h : e.1 = a.target
    · simp [Entries.modify, outlineOf, h, Resource.set]
    · simpa [Entries.modify, outlineOf, h] using ih

lemma outline_foldl_amend (as : List Amendment) (d : Document) :
    (as.foldl amend d).outline = d.outline := by
  induction as generalizing d with
  | nil => rfl
  | cons a as ih => exact (ih (amend d a)).trans (outline_amend d a)

lemma formatVersion_foldl_amend (as : List Amendment) (d : Document) :
    (as.foldl amend d).formatVersion = d.formatVersion := by
  induction as generalizing d with
  | nil => rfl
  | cons a as ih => exact ih (amend d a)

lemma outline_apply (d : Document) (k : Contribution) :
    (apply d k).outline = d.outline ++ outlineOf k.entries := by
  rw [apply, outline_foldl_amend]
  exact outlineOf_append _ _

lemma ids_apply (d : Document) (k : Contribution) : (apply d k).ids = d.ids ++ k.ids := by
  rw [apply, ids_foldl_amend]
  exact Entries.keys_append _ _

/-- After a contribution a resource is the one that was there or the one that is contributed, as it
has been amended. -/
lemma get?_apply (d : Document) (k : Contribution) (id : String) :
    (apply d k).get? id =
      ((d.get? id).or (Entries.get? k.entries id)).map (amended k.amendments id) := by
  rw [apply, get?_foldl_amend]
  exact congrArg (Option.map _) (Entries.get?_append _ _ _)

/-! ## Acceptance -/

lemma checkEntries_eq_ok_iff {owners : Entries String} {stage : String} {seen : List String}
    {es : List (String × Resource)} :
    checkEntries owners stage seen es = .ok () ↔
      (∀ id ∈ Entries.keys es, id ∉ Entries.keys owners ∧ id ∉ seen) ∧
        (Entries.keys es).Nodup := by
  induction es generalizing seen with
  | nil => simp [checkEntries]
  | cons e es ih =>
    obtain ⟨id, r⟩ := e
    cases ho : owners.get? id with
    | some first => simp [checkEntries, ho, Entries.mem_keys_of_get? ho]
    | none =>
      have fresh := Entries.get?_eq_none_iff.mp ho
      by_cases hs : id ∈ seen
      · simp [checkEntries, ho, hs]
      · simp only [checkEntries, ho, List.contains_eq_mem, hs, decide_false, Bool.false_eq_true,
          if_false, ih, Entries.keys_cons, List.mem_cons, not_or, List.nodup_cons]
        constructor
        · rintro ⟨h, distinct⟩
          refine ⟨?_, fun hmem => (h id hmem).2.1 rfl, distinct⟩
          rintro j (rfl | hj)
          · exact ⟨fresh, hs⟩
          · exact ⟨(h j hj).1, (h j hj).2.2⟩
        · rintro ⟨h, hnew, distinct⟩
          refine ⟨fun j hj => ?_, distinct⟩
          exact ⟨(h j (Or.inr hj)).1, fun heq => hnew (heq ▸ hj), (h j (Or.inr hj)).2⟩

/-- The fault of entries is about the first ID that is taken already, by an earlier stage or by an
earlier entry. -/
lemma checkEntries_eq_error {owners : Entries String} {stage : String} {seen : List String}
    {es : List (String × Resource)} {e : BuildError}
    (h : checkEntries owners stage seen es = .error e) :
    ∃ before id r after, es = before ++ (id, r) :: after ∧
      checkEntries owners stage seen before = .ok () ∧
      (owners.get? id = none → id ∈ seen ∨ id ∈ Entries.keys before) ∧
      e = .collision id ((owners.get? id).getD stage) stage := by
  induction es generalizing seen with
  | nil => cases h
  | cons entry es ih =>
    obtain ⟨id, r⟩ := entry
    cases ho : owners.get? id with
    | some first =>
      refine ⟨[], id, r, es, rfl, rfl, fun hnone => ?_, ?_⟩
      · rw [ho] at hnone; cases hnone
      · simpa [checkEntries, ho] using h.symm
    | none =>
      by_cases hs : id ∈ seen
      · refine ⟨[], id, r, es, rfl, rfl, fun _ => Or.inl hs, ?_⟩
        simpa [checkEntries, ho, hs] using h.symm
      · have rest : checkEntries owners stage (id :: seen) es = .error e := by
          simpa [checkEntries, ho, hs] using h
        obtain ⟨before, j, r', after, hsplit, hok, hold, he⟩ := ih rest
        refine ⟨(id, r) :: before, j, r', after, by simp [hsplit], ?_, ?_, he⟩
        · simpa [checkEntries, ho, hs] using hok
        · intro hnone
          rcases hold hnone with hseen | hbefore
          · rcases List.mem_cons.mp hseen with rfl | hseen
            · exact Or.inr (by simp)
            · exact Or.inl hseen
          · exact Or.inr (List.mem_cons_of_mem _ hbefore)

lemma checkAmendments_eq_ok_iff {d : Document} {stage : String} {as : List Amendment} :
    checkAmendments d stage as = .ok () ↔ ∀ a ∈ as, a.target ∈ d.ids := by
  induction as with
  | nil => simp [checkAmendments]
  | cons a as ih =>
    by_cases h : d.contains a.target
    · have hmem : a.target ∈ d.ids := Entries.contains_iff.mp h
      simp [checkAmendments, h, ih, hmem]
    · have hmem : a.target ∉ d.ids := fun hmem => h (Entries.contains_iff.mpr hmem)
      simp [checkAmendments, h, hmem]

/-- The fault of amendments is about the first one whose target is not there. -/
lemma checkAmendments_eq_error {d : Document} {stage : String} {as : List Amendment}
    {e : BuildError} (h : checkAmendments d stage as = .error e) :
    ∃ before a after, as = before ++ a :: after ∧ (∀ b ∈ before, b.target ∈ d.ids) ∧
      a.target ∉ d.ids ∧ e = .amendment stage a.target := by
  induction as with
  | nil => cases h
  | cons a as ih =>
    by_cases ha : d.contains a.target
    · have hmem : a.target ∈ d.ids := Entries.contains_iff.mp ha
      obtain ⟨before, b, after, hsplit, hreached, hmissing, he⟩ :=
        ih (by simpa [checkAmendments, ha] using h)
      refine ⟨a :: before, b, after, by simp [hsplit], ?_, hmissing, he⟩
      intro b' hb'
      rcases List.mem_cons.mp hb' with rfl | hb'
      · exact hmem
      · exact hreached b' hb'
    · refine ⟨[], a, as, rfl, by simp, fun hmem => ha (Entries.contains_iff.mpr hmem), ?_⟩
      simpa [checkAmendments, ha] using h.symm

/-- What a contribution has to be for a context to take it. -/
@[mk_iff accepts_iff]
structure Accepts (c : Context) (k : Contribution) : Prop where
  fresh : ∀ id ∈ k.ids, id ∉ Entries.keys c.owners
  distinct : k.ids.Nodup
  reached : ∀ a ∈ k.amendments, a.target ∈ c.document.ids

/-- The context once a contribution is in. -/
def merged (c : Context) (stage : String) (k : Contribution) : Context :=
  { c with
    document := apply c.document k
    owners := c.owners ++ k.entries.map fun e => (e.1, stage) }

lemma keys_owners_merged (c : Context) (stage : String) (k : Contribution) :
    Entries.keys (c.merged stage k).owners = Entries.keys c.owners ++ k.ids := by
  simp [merged, Contribution.ids, Entries.keys]

lemma merge_eq (c : Context) (stage : String) (k : Contribution) :
    c.merge stage k =
      match checkEntries c.owners stage [] k.entries with
      | .error e => .error e
      | .ok () =>
        match checkAmendments c.document stage k.amendments with
        | .error e => .error e
        | .ok () => .ok (c.merged stage k) := by
  cases he : checkEntries c.owners stage [] k.entries with
  | error e => simp only [merge, he]; rfl
  | ok u =>
    cases ha : checkAmendments c.document stage k.amendments with
    | error e => simp only [merge, he, ha]; rfl
    | ok u => simp only [merge, he, ha]; rfl

lemma merge_eq_ok_iff {c c' : Context} {stage : String} {k : Contribution} :
    c.merge stage k = .ok c' ↔ c.Accepts k ∧ c' = c.merged stage k := by
  rw [merge_eq]
  constructor
  · intro h
    split at h
    · cases h
    · rename_i he
      split at h
      · cases h
      · rename_i ha
        obtain ⟨fresh, distinct⟩ := checkEntries_eq_ok_iff.mp he
        exact ⟨⟨fun id hid => (fresh id hid).1, distinct, checkAmendments_eq_ok_iff.mp ha⟩,
          (Except.ok.inj h).symm⟩
  · rintro ⟨⟨fresh, distinct, reached⟩, rfl⟩
    have he : checkEntries c.owners stage [] k.entries = .ok () :=
      checkEntries_eq_ok_iff.mpr ⟨fun id hid => ⟨fresh id hid, List.not_mem_nil⟩, distinct⟩
    have ha : checkAmendments c.document stage k.amendments = .ok () :=
      checkAmendments_eq_ok_iff.mpr reached
    simp [he, ha]

/-- A refused contribution has an ID that is taken, or all its IDs are free and an amendment has
no target. -/
lemma merge_eq_error {c : Context} {stage : String} {k : Contribution} {e : BuildError}
    (h : c.merge stage k = .error e) :
    checkEntries c.owners stage [] k.entries = .error e ∨
      checkEntries c.owners stage [] k.entries = .ok () ∧
        checkAmendments c.document stage k.amendments = .error e := by
  rw [merge_eq] at h
  split at h
  · rename_i he
    cases h
    exact Or.inl he
  · rename_i he
    split at h
    · rename_i ha
      cases h
      exact Or.inr ⟨he, ha⟩
    · cases h

end Context

end SchemaStack
