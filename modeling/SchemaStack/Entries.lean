/-!
# Insertion-ordered maps

A list of keyed entries in which a key that is set again keeps its first position and takes its
last value. Nothing here forces the keys of a list to be distinct: that is what `insert` keeps,
as `nodup_insert` says.
-/

namespace SchemaStack

universe u v

abbrev Entries (α : Type u) := List (String × α)

namespace Entries

variable {α : Type u} {β : Type v}

def keys (es : Entries α) : List String := es.map Prod.fst

def get? : Entries α → String → Option α
  | [], _ => none
  | (k', v) :: es, k => if k' = k then some v else get? es k

def contains (es : Entries α) (k : String) : Bool := (get? es k).isSome

/-- A new key is appended; a key that is there keeps its place and takes the new value. -/
def insert : Entries α → String → α → Entries α
  | [], k, v => [(k, v)]
  | (k', w) :: es, k, v => if k' = k then (k, v) :: es else (k', w) :: insert es k v

/-- The map that inserting the entries one after the other builds. -/
def ofList (es : Entries α) : Entries α :=
  es.foldl (fun acc e => insert acc e.1 e.2) []

/-- Replaces the value of a key that is there, and does nothing for any other key. -/
def modify (f : α → α) : Entries α → String → Entries α
  | [], _ => []
  | (k', v) :: es, k => if k' = k then (k', f v) :: es else (k', v) :: modify f es k

theorem keys_insert (es : Entries α) (k : String) (v : α) :
    keys (insert es k v) = if k ∈ keys es then keys es else keys es ++ [k] := by
  induction es with
  | nil => simp [insert, keys]
  | cons e es ih =>
    obtain ⟨k', w⟩ := e
    by_cases h : k' = k
    · simp [insert, keys, h]
    · have h' : k ≠ k' := fun e => h e.symm
      simp only [keys] at ih
      by_cases hk : ∃ x, (k, x) ∈ es <;> simp_all [insert, keys]

theorem nodup_insert {es : Entries α} (h : (keys es).Nodup) (k : String) (v : α) :
    (keys (insert es k v)).Nodup := by
  rw [keys_insert]
  by_cases hk : k ∈ keys es
  · simpa [hk] using h
  · simp only [hk, if_false]
    rw [List.nodup_append]
    refine ⟨h, by simp, ?_⟩
    intro a ha b hb
    simp only [List.mem_singleton] at hb
    subst hb
    intro e
    exact hk (e ▸ ha)

theorem get?_insert (es : Entries α) (k k' : String) (v : α) :
    get? (insert es k v) k' = if k = k' then some v else get? es k' := by
  induction es with
  | nil => simp [insert, get?]
  | cons e es ih =>
    obtain ⟨j, w⟩ := e
    by_cases h : j = k
    · subst h
      by_cases h' : j = k' <;> simp [insert, get?, h']
    · by_cases h' : j = k'
      · subst h'
        have h'' : k ≠ j := fun e => h e.symm
        simp [insert, get?, h, h'']
      · simp [insert, get?, h, h', ih]

theorem keys_modify (f : α → α) (es : Entries α) (k : String) :
    keys (modify f es k) = keys es := by
  induction es with
  | nil => rfl
  | cons e es ih =>
    obtain ⟨j, w⟩ := e
    by_cases h : j = k
    · simp [modify, keys, h]
    · simpa [modify, keys, h] using ih

end Entries

end SchemaStack
