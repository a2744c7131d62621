import SchemaStack.Entries
import Mathlib.Data.List.Induction
import Mathlib.Tactic.Common
/-!
# Laws of insertion-ordered maps

Look-ups through appending, changing and inserting entries. Where keys repeat, a look-up sees the
first entry only, so the laws that speak of membership ask for distinct keys. A map that is built
entry by entry has each key at its first position with its last value.
-/

namespace SchemaStack.Entries

universe u v
variable {α : Type u} {β : Type v}

@[simp] lemma keys_nil : keys ([] : Entries α) = [] := rfl

@[simp] lemma keys_cons (e : String × α) (es : Entries α) : keys (e :: es) = e.1 :: keys es := rfl

@[simp] lemma keys_append (es fs : Entries α) : keys (es ++ fs) = keys es ++ keys fs :=
  List.map_append

@[simp] lemma get?_nil (k : String) : get? ([] : Entries α) k = none := rfl

lemma get?_cons (e : String × α) (es : Entries α) (k : String) :
    get? (e :: es) k = if e.1 = k then some e.2 else get? es k := rfl

/-- Where both have the key, the entries in front decide. -/
lemma get?_append (es fs : Entries α) (k : String) :
    get? (es ++ fs) k = (get? es k).or (get? fs k) := by
  induction es with
  | nil => simp
  | cons e es ih =>
    by_cases h : e.1 = k
    · simp [get?_cons, h]
    · simpa [get?_cons, h] using ih

lemma get?_of_isPrefix {es fs : Entries α} (known : es <+: fs) {k : String} {v : α}
    (h : get? es k = some v) : get? fs k = some v := by
  obtain ⟨rest, rfl⟩ := known
  rw [get?_append, h, Option.some_or]

lemma get?_eq_none_iff {es : Entries α} {k : String} : get? es k = none ↔ k ∉ keys es := by
  induction es with
  | nil => simp
  | cons e es ih =>
    by_cases h : e.1 = k
    · simp [get?_cons, h]
    · simp [get?_cons, h, ih, Ne.symm h]

lemma contains_iff {es : Entries α} {k : String} : contains es k = true ↔ k ∈ keys es := by
  rw [contains, Option.isSome_iff_ne_none, ne_eq, get?_eq_none_iff, not_not]

lemma mem_of_get? {es : Entries α} {k : String} {v : α} (h : get? es k = some v) :
    (k, v) ∈ es := by
  induction es with
  | nil => cases h
  | cons e es ih =>
    by_cases he : e.1 = k
    · have hv : e.2 = v := by simpa [get?_cons, he] using h
      have hsame : e = (k, v) := Prod.ext he hv
      exact List.mem_cons.mpr (Or.inl hsame.symm)
    · exact List.mem_cons_of_mem _ (ih (by simpa [get?_cons, he] using h))

lemma mem_keys_of_get? {es : Entries α} {k : String} {v : α} (h : get? es k = some v) :
    k ∈ keys es :=
  List.mem_map.mpr ⟨(k, v), mem_of_get? h, rfl⟩

lemma exists_get?_of_mem_keys {es : Entries α} {k : String} (h : k ∈ keys es) :
    ∃ v, get? es k = some v := by
  cases hg : get? es k with
  | none => exact absurd h (get?_eq_none_iff.mp hg)
  | some v => exact ⟨v, rfl⟩

/-- Every entry is found under its key if no key comes twice. -/
lemma get?_of_mem {es : Entries α} (distinct : (keys es).Nodup) {k : String} {v : α}
    (h : (k, v) ∈ es) : get? es k = some v := by
  induction es with
  | nil => cases h
  | cons e es ih =>
    rw [keys_cons, List.nodup_cons] at distinct
    rcases List.mem_cons.mp h with rfl | htail
    · simp [get?_cons]
    · have hne : e.1 ≠ k := by
        intro heq
        exact distinct.1 (heq ▸ List.mem_map.mpr ⟨(k, v), htail, rfl⟩)
      rw [get?_cons, if_neg hne]
      exact ih distinct.2 htail

lemma get?_modify (f : α → α) (es : Entries α) (k k' : String) :
    get? (modify f es k) k' = if k = k' then (get? es k').map f else get? es k' := by
  induction es with
  | nil => simp [modify]
  | cons e es ih =>
    by_cases h : e.1 = k
    · by_cases h' : k = k' <;> simp [modify, get?_cons, h, h']
    · by_cases h' : e.1 = k'
      · have hne : k ≠ k' := fun heq => h (h'.trans heq.symm)
        simp [modify, get?_cons, h', hne, Ne.symm hne]
      · simp [modify, get?_cons, h, h', ih]

lemma exists_of_mem_modify {f : α → α} {es : Entries α} {k : String} {e : String × α}
    (h : e ∈ modify f es k) : ∃ v, (e.1, v) ∈ es ∧ (e.2 = v ∨ e.2 = f v) := by
  induction es with
  | nil => cases h
  | cons e' es ih =>
    rw [modify] at h
    split at h
    · rcases List.mem_cons.mp h with rfl | htail
      · exact ⟨e'.2, List.mem_cons_self, Or.inr rfl⟩
      · exact ⟨e.2, List.mem_cons_of_mem _ htail, Or.inl rfl⟩
    · rcases List.mem_cons.mp h with rfl | htail
      · exact ⟨e'.2, List.mem_cons_self, Or.inl rfl⟩
      · obtain ⟨v, hv, hsame⟩ := ih htail
        exact ⟨v, List.mem_cons_of_mem _ hv, hsame⟩

lemma mem_of_mem_insert {es : Entries α} {k : String} {v : α} {e : String × α}
    (h : e ∈ insert es k v) : e ∈ es ∨ e = (k, v) := by
  induction es with
  | nil => exact Or.inr (List.mem_singleton.mp h)
  | cons e' es ih =>
    rw [insert] at h
    split at h
    · rcases List.mem_cons.mp h with rfl | htail
      · exact Or.inr rfl
      · exact Or.inl (List.mem_cons_of_mem _ htail)
    · rcases List.mem_cons.mp h with rfl | htail
      · exact Or.inl List.mem_cons_self
      · exact (ih htail).imp_left (List.mem_cons_of_mem _)

lemma insert_of_notMem {es : Entries α} {k : String} (h : k ∉ keys es) (v : α) :
    insert es k v = es ++ [(k, v)] := by
  induction es with
  | nil => rfl
  | cons e es ih =>
    have hne : e.1 ≠ k := fun heq => h (by simp [heq])
    have htail : k ∉ keys es := fun hk => h (List.mem_cons_of_mem _ hk)
    simp [insert, hne, ih htail]

/-- A look-up finds the first entry with the key. -/
lemma exists_of_get? {es : Entries α} {k : String} {v : α} (h : get? es k = some v) :
    ∃ before after, es = before ++ (k, v) :: after ∧ k ∉ keys before := by
  induction es with
  | nil => cases h
  | cons e es ih =>
    rw [get?_cons] at h
    split at h
    · next he =>
      exact ⟨[], es, congrArg (· :: es) (Prod.ext he (Option.some.inj h)), List.not_mem_nil⟩
    · next he =>
      obtain ⟨before, after, rfl, hbefore⟩ := ih h
      exact ⟨e :: before, after, rfl, List.not_mem_cons_of_ne_of_not_mem (Ne.symm he) hbefore⟩

/-- A key that is there keeps its place. -/
lemma insert_append_cons {before : Entries α} {k : String} (h : k ∉ keys before) (v w : α)
    (after : Entries α) : insert (before ++ (k, w) :: after) k v = before ++ (k, v) :: after := by
  induction before with
  | nil => simp [insert]
  | cons e before ih =>
    rw [keys_cons, List.mem_cons, not_or] at h
    simp [insert, Ne.symm h.1, ih h.2]

/-- Inserting entries whose keys are new and distinct appends them. -/
lemma foldl_insert_of_nodup (key : β → String) (value : β → α) (xs : List β) (es : Entries α)
    (distinct : (keys es ++ xs.map key).Nodup) :
    xs.foldl (fun acc x => insert acc (key x) (value x)) es =
      es ++ xs.map fun x => (key x, value x) := by
  induction xs generalizing es with
  | nil => simp
  | cons x xs ih =>
    have hx : key x ∉ keys es := by
      intro hmem
      exact (List.nodup_append.mp distinct).2.2 _ hmem _ (by simp) rfl
    have hrest : (keys (es ++ [(key x, value x)]) ++ xs.map key).Nodup := by
      simpa using distinct
    rw [List.foldl_cons, insert_of_notMem hx, ih _ hrest]
    simp

lemma get?_map_keyed (g : String → α → β) (es : Entries α) (k : String) :
    get? (es.map fun e => (e.1, g e.1 e.2)) k = (get? es k).map (g k) := by
  induction es with
  | nil => rfl
  | cons e es ih =>
    by_cases h : e.1 = k
    · simp [get?_cons, h]
    · simpa [get?_cons, h] using ih

lemma get?_map (g : α → β) (es : Entries α) (k : String) :
    get? (es.map fun e => (e.1, g e.2)) k = (get? es k).map g :=
  get?_map_keyed (fun _ => g) es k

lemma map_insert (g : String → α → β) (es : Entries α) (k : String) (v : α) :
    (insert es k v).map (fun e => (e.1, g e.1 e.2)) =
      insert (es.map fun e => (e.1, g e.1 e.2)) k (g k v) := by
  induction es with
  | nil => rfl
  | cons e es ih =>
    by_cases h : e.1 = k
    · simp [insert, h]
    · simp [insert, h, ih]

/-- What is made of entries changes like the entries, if this is so of the value that changes. -/
lemma map_modify {g : α → β} {f : α → α} {f' : β → β} {es : Entries α} {k : String}
    (h : ∀ v, get? es k = some v → g (f v) = f' (g v)) :
    (modify f es k).map (fun e => (e.1, g e.2)) = modify f' (es.map fun e => (e.1, g e.2)) k := by
  induction es with
  | nil => rfl
  | cons e es ih =>
    by_cases he : e.1 = k
    · simp [modify, he, h e.2 (by simp [get?_cons, he])]
    · simp [modify, he, ih fun v hv => h v (by simpa [get?_cons, he] using hv)]

lemma get?_filter {p : String → Bool} {k : String} (h : p k = true) (es : Entries α) :
    get? (es.filter fun e => p e.1) k = get? es k := by
  induction es with
  | nil => rfl
  | cons e es ih =>
    by_cases hk : e.1 = k
    · rw [List.filter_cons_of_pos (by rw [hk, h]), get?_cons, get?_cons, if_pos hk, if_pos hk]
    · rw [get?_cons, if_neg hk, ← ih, List.filter_cons]
      split
      · rw [get?_cons, if_neg hk]
      · rfl

lemma get?_map_key (key : β → String) (value : β → α) (xs : List β) (k : String) :
    get? (xs.map fun x => (key x, value x)) k = (xs.find? fun x => key x == k).map value := by
  induction xs with
  | nil => rfl
  | cons x xs ih =>
    by_cases h : key x = k
    · simp [get?_cons, h]
    · simpa [get?_cons, h] using ih

/-! ## Maps from entries with repeated keys -/

lemma ofList_append_singleton (es : Entries α) (e : String × α) :
    ofList (es ++ [e]) = insert (ofList es) e.1 e.2 := by
  rw [ofList, List.foldl_append]
  rfl

lemma eraseDups_concat [DecidableEq α] (xs : List α) (x : α) :
    (xs ++ [x]).eraseDups = if x ∈ xs then xs.eraseDups else xs.eraseDups ++ [x] := by
  rw [List.eraseDups_append]
  by_cases h : x ∈ xs
  · simp [List.removeAll, h]
  · simp [List.removeAll, h, List.eraseDups_cons]

/-- Every key keeps its first position. -/
lemma keys_ofList (es : Entries α) : keys (ofList es) = (keys es).eraseDups := by
  induction es using List.reverseRecOn with
  | nil => rfl
  | append_singleton es e ih =>
    rw [ofList_append_singleton, keys_insert, keys_append, keys_cons, keys_nil, eraseDups_concat,
      ih]
    simp only [List.mem_eraseDups]

/-- Every key takes its last value. -/
lemma get?_ofList (es : Entries α) (k : String) : get? (ofList es) k = get? es.reverse k := by
  induction es using List.reverseRecOn with
  | nil => rfl
  | append_singleton es e ih =>
    rw [ofList_append_singleton, get?_insert, List.reverse_append, ih]
    rfl

lemma nodup_keys_ofList (es : Entries α) : (keys (ofList es)).Nodup := by
  induction es using List.reverseRecOn with
  | nil => exact List.nodup_nil
  | append_singleton es e ih =>
    rw [ofList_append_singleton]
    exact nodup_insert ih _ _

lemma mem_of_mem_ofList {es : Entries α} {e : String × α} (h : e ∈ ofList es) : e ∈ es := by
  induction es using List.reverseRecOn with
  | nil => cases h
  | append_singleton es e' ih =>
    rw [ofList_append_singleton] at h
    rcases mem_of_mem_insert h with h | rfl
    · exact List.mem_append_left _ (ih h)
    · exact List.mem_append_right _ List.mem_cons_self

lemma ofList_of_nodup {es : Entries α} (distinct : (keys es).Nodup) : ofList es = es := by
  have h := foldl_insert_of_nodup Prod.fst Prod.snd es [] distinct
  rwa [List.nil_append, List.map_id''] at h
  intro e
  rfl

/-- Entries with distinct keys are determined by the order of the keys and by the look-up. -/
lemma eq_of_keys_of_get? {es fs : Entries α} (distinct : (keys fs).Nodup)
    (sameKeys : keys es = keys fs) (same : ∀ k, get? es k = get? fs k) : es = fs := by
  induction es generalizing fs with
  | nil =>
    cases fs with
    | nil => rfl
    | cons f fs => cases sameKeys
  | cons e es ih =>
    cases fs with
    | nil => cases sameKeys
    | cons f fs =>
      rw [keys_cons, keys_cons, List.cons.injEq] at sameKeys
      obtain ⟨hkey, hkeys⟩ := sameKeys
      rw [keys_cons, List.nodup_cons] at distinct
      have hvalue : e.2 = f.2 := by
        have h := same e.1
        rw [get?_cons, get?_cons, if_pos rfl, if_pos hkey.symm] at h
        exact Option.some.inj h
      have hrest : ∀ k, get? es k = get? fs k := by
        intro k
        by_cases hk : e.1 = k
        · subst hk
          have hes : e.1 ∉ keys es := by rw [hkeys, hkey]; exact distinct.1
          have hfs : e.1 ∉ keys fs := by rw [hkey]; exact distinct.1
          rw [get?_eq_none_iff.mpr hes, get?_eq_none_iff.mpr hfs]
        · have h := same k
          rwa [get?_cons, get?_cons, if_neg hk, if_neg (hkey ▸ hk)] at h
      rw [Prod.ext hkey hvalue, ih distinct.2 hkeys hrest]

end SchemaStack.Entries
