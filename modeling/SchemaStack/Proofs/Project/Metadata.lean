import SchemaStack.Project.Meta
import SchemaStack.Proofs.Json.Values
/-!
# Metadata of a project

Metadata is the same after it has been written as a text and read again, if its values can be
stored. A resource with a new name is added at the end of its category, and nothing else is
different.
-/

namespace SchemaStack.ProjectMeta

open JsonText (maxDepth json? jsonMembers?)
open Json (Storable Integral)

variable {m m' : ProjectMeta} {category name service : String} {value : Json}

/-! ## Adding a resource -/

/-- The names of the resources in a category. -/
def namesIn (m : ProjectMeta) (category : String) : List String :=
  Entries.keys ((m.categories.get? category).getD [])

/-- The second metadata has one resource more than the first: the last one of its category, which
is the last category if it is new. -/
inductive Appended (category name : String) (value : Json) : ProjectMeta → ProjectMeta → Prop where
  | known {before after : Entries (Entries Json)} {resources : Entries Json}
    (first : category ∉ Entries.keys before) (fresh : name ∉ Entries.keys resources) :
    Appended category name value ⟨before ++ (category, resources) :: after⟩
      ⟨before ++ (category, resources ++ [(name, value)]) :: after⟩
  | new {categories : Entries (Entries Json)} (fresh : category ∉ Entries.keys categories) :
    Appended category name value ⟨categories⟩ ⟨categories ++ [(category, [(name, value)])]⟩

lemma appended_add (fresh : name ∉ m.namesIn category) (value : Json) :
    Appended category name value m (m.add category name value) := by
  obtain ⟨categories⟩ := m
  rw [namesIn] at fresh
  rw [add]
  dsimp only at fresh ⊢
  cases hget : categories.get? category with
  | none =>
    rw [Entries.insert_of_notMem (Entries.get?_eq_none_iff.mp hget)]
    exact .new (Entries.get?_eq_none_iff.mp hget)
  | some resources =>
    rw [hget, Option.getD_some] at fresh
    obtain ⟨before, after, rfl, first⟩ := Entries.exists_of_get? hget
    rw [Option.getD_some, Entries.insert_of_notMem fresh, Entries.insert_append_cons first]
    exact .known first fresh

namespace Appended

/-- What a category holds is all that has become more. -/
lemma get?_eq (h : Appended category name value m m') :
    m'.categories.get? category =
      some ((m.categories.get? category).getD [] ++ [(name, value)]) := by
  cases h with
  | known first fresh =>
    rw [Entries.get?_append, Entries.get?_append, Entries.get?_eq_none_iff.mpr first]
    simp [Entries.get?_cons]
  | new fresh =>
    rw [Entries.get?_append, Entries.get?_eq_none_iff.mpr fresh]
    simp [Entries.get?_cons]

lemma namesIn_eq (h : Appended category name value m m') :
    m'.namesIn category = m.namesIn category ++ [name] := by
  rw [namesIn, h.get?_eq, Option.getD_some, Entries.keys_append]
  rfl

lemma resourcesOf_eq (h : Appended category name value m m')
    (served : (value.get? "service").bind Json.string? = some service) :
    m'.resourcesOf category service = m.resourcesOf category service ++ [name] := by
  rw [resourcesOf, h.get?_eq, Option.getD_some, List.filter_append, List.map_append,
    List.filter_cons_of_pos (by simp [served])]
  rfl

end Appended

/-! ## As a JSON text -/

/-- Metadata can be stored if the values of its resources can, two levels further down. -/
lemma storable_toJson_iff : Storable maxDepth m.toJson ↔ (Entries.keys m.categories).Nodup ∧
    ∀ c ∈ m.categories, (Entries.keys c.2).Nodup ∧ ∀ r ∈ c.2, Storable (maxDepth - 2) r.2 := by
  have hkeys : Entries.keys (m.categories.map fun c => (c.1, Json.object c.2)) =
      Entries.keys m.categories := by simp [Entries.keys]
  constructor
  · rintro (_ | _ | _ | _ | _ | ⟨distinct, parts⟩)
    rw [hkeys] at distinct
    refine ⟨distinct, fun c hc => ?_⟩
    rcases parts _ (List.mem_map_of_mem hc) with (_ | _ | _ | _ | _ | ⟨distinct, parts⟩)
    exact ⟨distinct, parts⟩
  · rintro ⟨distinct, parts⟩
    refine .object (hkeys ▸ distinct) fun e he => ?_
    obtain ⟨c, hc, rfl⟩ := List.mem_map.mp he
    exact .object (parts c hc).1 (parts c hc).2

/-- A value that can be stored can be added. -/
lemma storable_add (note : Storable (maxDepth - 2) value) (storable : Storable maxDepth m.toJson)
    (category name : String) : Storable maxDepth (m.add category name value).toJson := by
  rw [storable_toJson_iff] at storable ⊢
  obtain ⟨distinct, parts⟩ := storable
  have there : (Entries.keys ((m.categories.get? category).getD [])).Nodup ∧
      ∀ r ∈ (m.categories.get? category).getD [], Storable (maxDepth - 2) r.2 := by
    cases hget : m.categories.get? category with
    | none => exact ⟨List.nodup_nil, List.forall_mem_nil _⟩
    | some resources => exact parts _ (Entries.mem_of_get? hget)
  refine ⟨Entries.nodup_insert distinct _ _, fun c hc => ?_⟩
  rcases Entries.mem_of_mem_insert hc with hc | rfl
  · exact parts c hc
  · refine ⟨Entries.nodup_insert there.1 _ _, fun r hr => ?_⟩
    rcases Entries.mem_of_mem_insert hr with hr | rfl
    · exact there.2 r hr
    · exact note

/-- The category that a member of the text stands for. -/
def category? (member : List JsonUnit × JsonText) : Option (String × Entries Json) := do
  let key ← JsonText.string? member.1
  let resources ← resources? member.2
  return (key, resources)

lemma ofJsonText?_object (ts : List (List JsonUnit × JsonText)) :
    ofJsonText? (.object ts) = (ts.mapM category?).map fun cs => ⟨Entries.ofList cs⟩ := rfl

lemma resources?_of_json? {t : JsonText} {resources : Entries Json}
    (h : json? (maxDepth - 1) t = some (.object resources)) : resources? t = some resources := by
  cases t with
  | object ts =>
    rw [json?, if_neg (by decide)] at h
    obtain ⟨ms, hms, hsame⟩ := Option.map_eq_some_iff.mp h
    obtain rfl := Json.object.inj hsame
    exact Option.map_eq_some_iff.mpr ⟨ms, hms, rfl⟩
  | _ => simp [json?] at h

lemma mapM_category? {ts : List (List JsonUnit × JsonText)} {cs : Entries (Entries Json)}
    (h : jsonMembers? (maxDepth - 1) ts = some (cs.map fun c => (c.1, Json.object c.2))) :
    ts.mapM category? = some cs := by
  induction ts generalizing cs with
  | nil =>
    rw [jsonMembers?, Option.some.injEq, eq_comm, List.map_eq_nil_iff] at h
    rw [h]
    rfl
  | cons t ts ih =>
    obtain ⟨us, t⟩ := t
    rw [jsonMembers?] at h
    obtain ⟨k, hk, h⟩ := Option.bind_eq_some_iff.mp h
    obtain ⟨v, hv, h⟩ := Option.bind_eq_some_iff.mp h
    obtain ⟨vs, hvs, h⟩ := Option.bind_eq_some_iff.mp h
    cases cs with
    | nil => cases h
    | cons c cs =>
      obtain ⟨hhead, rfl⟩ := List.cons.inj (Option.some.inj h)
      obtain ⟨rfl, rfl⟩ := Prod.mk.inj hhead
      have hcategory : category? (us, t) = some c := by
        simp [category?, hk, resources?_of_json? hv]
      rw [List.mapM_cons, hcategory, ih hvs]
      rfl

/-- Metadata comes back from its text. -/
theorem ofText?_pretty (storable : Storable maxDepth m.toJson) :
    ofText? m.toJson.pretty = some m := by
  obtain ⟨distinct, parts⟩ := storable_toJson_iff.mp storable
  have members : ∀ e ∈ m.categories.map fun c => (c.1, Json.object c.2),
      Storable (maxDepth - 1) e.2 := by
    intro e he
    obtain ⟨c, hc, rfl⟩ := List.mem_map.mp he
    exact .object (parts c hc).1 (parts c hc).2
  obtain ⟨ts, htree, hmembers⟩ := Json.exists_tree_pretty members
  rw [ofText?, toJson, htree, Option.bind_some, ofJsonText?_object, mapM_category? hmembers,
    Option.map_some, Entries.ofList_of_nodup distinct]

lemma exists_of_mem_mapM {α β : Type} {f : α → Option β} {xs : List α} {ys : List β}
    (h : xs.mapM f = some ys) {y : β} (hy : y ∈ ys) : ∃ x, f x = some y := by
  induction xs generalizing ys with
  | nil =>
    obtain rfl := Option.some.inj h
    cases hy
  | cons x xs ih =>
    rw [List.mapM_cons] at h
    obtain ⟨z, hz, h⟩ := Option.bind_eq_some_iff.mp h
    obtain ⟨zs, hzs, h⟩ := Option.bind_eq_some_iff.mp h
    obtain rfl := Option.some.inj h
    rcases List.mem_cons.mp hy with rfl | hy
    · exact ⟨x, hz⟩
    · exact ih hzs hy

/-- Metadata that has been read can be stored again, if it has no fractions. -/
theorem storable_of_ofText? {text : String} (h : ofText? text = some m)
    (whole : Integral m.toJson) : Storable maxDepth m.toJson := by
  obtain ⟨t, _, h⟩ := Option.bind_eq_some_iff.mp h
  cases t with
  | object ts =>
    rw [ofJsonText?_object] at h
    obtain ⟨cs, hcs, rfl⟩ := Option.map_eq_some_iff.mp h
    refine storable_toJson_iff.mpr ⟨Entries.nodup_keys_ofList cs, fun c hc => ?_⟩
    obtain ⟨⟨us, t⟩, hcategory⟩ := exists_of_mem_mapM hcs (Entries.mem_of_mem_ofList hc)
    obtain ⟨key, _, hcategory⟩ := Option.bind_eq_some_iff.mp hcategory
    obtain ⟨resources, hresources, hcategory⟩ := Option.bind_eq_some_iff.mp hcategory
    obtain rfl := Option.some.inj hcategory
    cases whole with
    | object whole =>
      have inner := whole _ (List.mem_map_of_mem hc)
      cases inner with
      | object whole =>
        cases t with
        | object members =>
          obtain ⟨ms, hms, rfl⟩ := Option.map_eq_some_iff.mp hresources
          refine ⟨Entries.nodup_keys_ofList ms, fun r hr => ?_⟩
          obtain ⟨t, ht⟩ := Json.exists_of_mem_jsonMembers? hms (Entries.mem_of_mem_ofList hr)
          exact Json.storable_of_json? ht (whole r hr)
        | _ => cases hresources
  | _ => cases h

end SchemaStack.ProjectMeta
