import SchemaStack.Proofs.Filesystem.Atomicity
import SchemaStack.Proofs.Project.Metadata
import Mathlib.Data.List.Nodup
import Mathlib.Data.List.Perm.Subperm
/-!
# Setting up storage resources

A new storage resource takes the first free name of its category and is the only thing that is
different in the metadata of the project. So resources that are set up one after the other get
different names, which follow the names that were there before. Where a resource cannot be set up,
the metadata stays as it is.
-/

namespace SchemaStack.Filesystem

open JsonText (maxDepth)
open Json (Storable Integral)
open ProjectMeta (Appended)

variable {fs fs' : Filesystem} {p : Path} {category provider name stem : String}
  {service : StorageService} {m m' : ProjectMeta} {taken names providers : List String}

/-! ## Free names -/

/-- The least number, from one on, with which the stem is not taken. There is one among the first
numbers, one more than there are names taken. -/
structure FirstFree (stem : String) (taken : List String) (n : Nat) : Prop where
  positive : 1 ≤ n
  bounded : n ≤ taken.length + 1
  free : stem ++ toString n ∉ taken
  least : ∀ k, 1 ≤ k → k < n → stem ++ toString k ∈ taken

lemma numbered_injective (stem : String) :
    Function.Injective fun n : Nat => stem ++ toString (n + 1) := by
  intro i j h
  have hdigits : Nat.toDigits 10 (i + 1) = Nat.toDigits 10 (j + 1) := by
    simpa [← String.toList_inj, Nat.repr_eq_ofList_toDigits] using h
  have hvalue := congrArg (Nat.ofDigitChars 10 · 0) hdigits
  simpa only [Nat.ofDigitChars_ten_toDigits, Nat.succ.injEq] using hvalue

/-- So many candidates cannot all be taken. -/
lemma exists_candidate (stem : String) (taken : List String) :
    ∃ i < taken.length + 1, stem ++ toString (i + 1) ∉ taken := by
  by_contra hall
  simp only [not_exists, not_and, not_not] at hall
  have hsubset : (List.range (taken.length + 1)).map (fun n => stem ++ toString (n + 1)) ⊆
      taken := by
    intro name hname
    obtain ⟨i, hi, rfl⟩ := List.mem_map.mp hname
    exact hall i (List.mem_range.mp hi)
  have hdistinct : ((List.range (taken.length + 1)).map fun n =>
      stem ++ toString (n + 1)).Nodup := List.Nodup.map (numbered_injective stem) List.nodup_range
  have hlength := (List.subperm_of_subset hdistinct hsubset).length_le
  rw [List.length_map, List.length_range] at hlength
  omega

/-- The search for a name always ends, with the first one that is free. -/
theorem exists_freeName? (stem : String) (taken : List String) :
    ∃ n, freeName? stem taken = some (stem ++ toString n) ∧ FirstFree stem taken n := by
  cases hfind : freeName? stem taken with
  | none =>
    obtain ⟨i, hi, hfree⟩ := exists_candidate stem taken
    have htaken := List.find?_eq_none.mp hfind _ (List.mem_map_of_mem (List.mem_range.mpr hi))
    exact absurd (by simpa using htaken) hfree
  | some name =>
    obtain ⟨hfree, i, hi, rfl, hleast⟩ := List.find?_eq_some_iff_getElem.mp hfind
    rw [List.length_map, List.length_range] at hi
    simp only [List.getElem_map, List.getElem_range, List.contains_eq_mem, Bool.not_eq_true',
      Bool.not_not, decide_eq_false_iff_not, decide_eq_true_eq] at hfree hleast ⊢
    refine ⟨i + 1, rfl, by omega, by omega, hfree, fun k hk hki => ?_⟩
    have hbefore := hleast (k - 1) (by omega)
    rwa [Nat.sub_add_cancel hk] at hbefore

/-! ## Metadata in its file -/

lemma storable_of_loadMeta (h : fs.loadMeta p = .ok m) (whole : Integral m.toJson) :
    Storable maxDepth m.toJson := by
  rw [loadMeta] at h
  split at h
  · obtain rfl := Except.ok.inj h
    exact .object List.nodup_nil (List.forall_mem_nil _)
  · cases h
  · split at h
    · cases h
    · next hread =>
      obtain rfl := Except.ok.inj h
      exact ProjectMeta.storable_of_ofText? hread whole

lemma loadMeta_of_readText (h : fs.readText p = .ok m.toJson.pretty)
    (storable : Storable maxDepth m.toJson) : fs.loadMeta p = .ok m := by
  rw [loadMeta, h]
  simp only [ProjectMeta.ofText?_pretty storable]

/-- What is noted about a storage resource. -/
def storageNote (provider : String) (service : StorageService) : Json :=
  .object [("service", .string service.label), ("providerPlugin", .string provider)]

lemma storable_storageNote (depth : Nat) (provider : String) (service : StorageService) :
    Storable (depth + 1) (storageNote provider service) := by
  have distinct : ["service", "providerPlugin"].Nodup := by decide
  refine .object distinct ?_
  simp only [List.forall_mem_cons]
  exact ⟨.string _ _, .string _ _, List.forall_mem_nil _⟩

/-! ## One resource -/

/-- Where the metadata can be loaded, the first free name is noted in it. -/
lemma addStorage_of_loadMeta (hload : fs.loadMeta p = .ok m)
    (hname : freeName? service.stem (m.namesIn category) = some name) :
    fs.addStorage p category provider service =
      match fs.writeAtomic p
        (m.add category name (storageNote provider service)).toJson.pretty with
      | (.error e, fs') => (.error (.failed e.message), fs')
      | (.ok (), fs') => (.ok name, fs') := by
  rw [ProjectMeta.namesIn] at hname
  simp only [addStorage, hload, hname]
  rfl

/-- A storage resource that has been set up has the first free name of its category, and is the
only thing that is different in the metadata. -/
structure Provisioned (category provider : String) (service : StorageService) (name : String)
    (m m' : ProjectMeta) : Prop where
  named : ∃ n, FirstFree service.stem (m.namesIn category) n ∧ name = service.stem ++ toString n
  appended : Appended category name (storageNote provider service) m m'

lemma Provisioned.fresh (h : Provisioned category provider service name m m') :
    name ∉ m.namesIn category := by
  obtain ⟨n, hfirst, rfl⟩ := h.named
  exact hfirst.free

lemma Provisioned.resourcesOf_eq (h : Provisioned category provider service name m m') :
    m'.resourcesOf category service.label = m.resourcesOf category service.label ++ [name] :=
  h.appended.resourcesOf_eq rfl

/-- The metadata is in its file, and can be stored there. -/
structure Kept (p : Path) (m : ProjectMeta) (fs : Filesystem) : Prop where
  storable : Storable maxDepth m.toJson
  settled : Settled p m.toJson.pretty fs

lemma Kept.loadMeta (kept : Kept p m fs) : fs.loadMeta p = .ok m :=
  loadMeta_of_readText kept.settled.readText kept.storable

lemma exists_loadMeta_of_addStorage
    (h : fs.addStorage p category provider service = (.ok name, fs')) :
    ∃ m, fs.loadMeta p = .ok m := by
  cases hload : fs.loadMeta p with
  | error e =>
    rw [addStorage, hload] at h
    cases (Prod.mk.inj h).1
  | ok m => exact ⟨m, rfl⟩

theorem provisioned_of_addStorage (hload : fs.loadMeta p = .ok m)
    (storable : Storable maxDepth m.toJson)
    (h : fs.addStorage p category provider service = (.ok name, fs')) :
    ∃ m', Provisioned category provider service name m m' ∧ Kept p m' fs' := by
  obtain ⟨n, hname, hfirst⟩ := exists_freeName? service.stem (m.namesIn category)
  rw [addStorage_of_loadMeta hload hname] at h
  split at h
  · cases (Prod.mk.inj h).1
  · next fs₁ hput =>
    obtain ⟨⟨rfl⟩, rfl⟩ := Prod.mk.inj h
    refine ⟨_, ⟨⟨n, hfirst, rfl⟩, ProjectMeta.appended_add hfirst.free _⟩,
      ProjectMeta.storable_add (storable_storageNote _ _ _) storable _ _,
      settled_writeAtomic hput⟩

/-- A resource that cannot be set up leaves everything but the sibling of the metadata file. -/
lemma changed_of_addStorage_error {e : SourceError}
    (h : fs.addStorage p category provider service = (.error e, fs')) :
    ChangedWithin [fs.locationOf p.temporary] fs fs' := by
  cases hload : fs.loadMeta p with
  | error e' =>
    rw [addStorage, hload] at h
    obtain rfl := (Prod.mk.inj h).2
    exact .refl _ _
  | ok m =>
    obtain ⟨n, hname, _⟩ := exists_freeName? service.stem (m.namesIn category)
    rw [addStorage_of_loadMeta hload hname] at h
    split at h
    · next e' fs₁ hput =>
      obtain rfl := (Prod.mk.inj h).2
      exact changed_of_writeAtomic_error hput
    · cases (Prod.mk.inj h).1

/-- Where the metadata has been put in its file, another resource can be set up. -/
lemma Kept.exists_addStorage (kept : Kept p m fs) (category provider : String)
    (service : StorageService) :
    ∃ name fs', fs.addStorage p category provider service = (.ok name, fs') := by
  obtain ⟨n, hname, _⟩ := exists_freeName? service.stem (m.namesIn category)
  obtain ⟨fs', hput⟩ := kept.settled.replace
    (m.add category (service.stem ++ toString n) (storageNote provider service)).toJson.pretty
  refine ⟨service.stem ++ toString n, fs', ?_⟩
  rw [addStorage_of_loadMeta kept.loadMeta hname, hput]

/-! ## One resource after the other -/

/-- Sets up a resource for each of the providers, up to the first that cannot be set up. -/
def addStorages (p : Path) (category : String) (service : StorageService) :
    List String → Filesystem → Except SourceError (List String) × Filesystem
  | [], fs => (.ok [], fs)
  | provider :: providers, fs =>
    match fs.addStorage p category provider service with
    | (.error e, fs) => (.error e, fs)
    | (.ok name, fs) =>
      match addStorages p category service providers fs with
      | (.error e, fs) => (.error e, fs)
      | (.ok names, fs) => (.ok (name :: names), fs)

lemma addStorages_cons_eq_ok_iff :
    addStorages p category service (provider :: providers) fs = (.ok names, fs') ↔
      ∃ name fs₁ rest, fs.addStorage p category provider service = (.ok name, fs₁) ∧
        addStorages p category service providers fs₁ = (.ok rest, fs') ∧ names = name :: rest := by
  rw [addStorages]
  cases hfirst : fs.addStorage p category provider service with
  | mk result fs₁ =>
    cases result with
    | error e => simp
    | ok name =>
      cases hrest : addStorages p category service providers fs₁ with
      | mk result fs₂ => cases result <;> simp [hrest, eq_comm, and_comm]

/-- Names that are new and distinct have been added behind those that were there. -/
structure Extended (category : String) (service : StorageService) (names : List String)
    (m m' : ProjectMeta) : Prop where
  distinct : names.Nodup
  fresh : ∀ name ∈ names, name ∉ m.namesIn category
  namesIn : m'.namesIn category = m.namesIn category ++ names
  resourcesOf : m'.resourcesOf category service.label =
    m.resourcesOf category service.label ++ names

lemma Extended.cons {m₁ : ProjectMeta} (first : Provisioned category provider service name m m₁)
    (rest : Extended category service names m₁ m') :
    Extended category service (name :: names) m m' where
  distinct := by
    refine List.nodup_cons.mpr ⟨fun hmem => rest.fresh name hmem ?_, rest.distinct⟩
    rw [first.appended.namesIn_eq]
    exact List.mem_append_right _ List.mem_cons_self
  fresh := by
    refine List.forall_mem_cons.mpr ⟨first.fresh, fun other hother hmem => ?_⟩
    refine rest.fresh other hother ?_
    rw [first.appended.namesIn_eq]
    exact List.mem_append_left _ hmem
  namesIn := by
    rw [rest.namesIn, first.appended.namesIn_eq, List.append_assoc, List.singleton_append]
  resourcesOf := by
    rw [rest.resourcesOf, first.resourcesOf_eq, List.append_assoc, List.singleton_append]

theorem extended_of_addStorages (hload : fs.loadMeta p = .ok m)
    (storable : Storable maxDepth m.toJson)
    (h : addStorages p category service providers fs = (.ok names, fs')) :
    names.length = providers.length ∧
      ∃ m', fs'.loadMeta p = .ok m' ∧ Extended category service names m m' := by
  induction providers generalizing fs m names with
  | nil =>
    obtain ⟨⟨rfl⟩, rfl⟩ := Prod.mk.inj h
    exact ⟨rfl, m, hload, List.nodup_nil, List.forall_mem_nil _, (List.append_nil _).symm,
      (List.append_nil _).symm⟩
  | cons provider providers ih =>
    obtain ⟨name, fs₁, rest, hfirst, hrest, rfl⟩ := addStorages_cons_eq_ok_iff.mp h
    obtain ⟨m₁, provisioned, kept⟩ := provisioned_of_addStorage hload storable hfirst
    obtain ⟨hlength, m', hload', extended⟩ := ih kept.loadMeta kept.storable hrest
    exact ⟨congrArg Nat.succ hlength, m', hload', extended.cons provisioned⟩

lemma Kept.exists_addStorages (kept : Kept p m fs) (category : String) (service : StorageService)
    (providers : List String) :
    ∃ names fs', addStorages p category service providers fs = (.ok names, fs') := by
  induction providers generalizing fs m with
  | nil => exact ⟨[], fs, rfl⟩
  | cons provider providers ih =>
    obtain ⟨name, fs₁, hfirst⟩ := kept.exists_addStorage category provider service
    obtain ⟨m₁, _, kept₁⟩ := provisioned_of_addStorage kept.loadMeta kept.storable hfirst
    obtain ⟨rest, fs', hrest⟩ := ih kept₁
    exact ⟨name :: rest, fs', addStorages_cons_eq_ok_iff.mpr ⟨name, fs₁, rest, hfirst, hrest, rfl⟩⟩

/-- Setting up storage in metadata without fractions takes the first free name and leaves the rest
as it is. Once it has worked it keeps working, and the names that it gives are distinct and follow
those that were there. Where it fails, the metadata is as before. -/
theorem addStorage_first_free (p : Path) (category : String) (service : StorageService)
    (integral : ∀ m, fs.loadMeta p = .ok m → Integral m.toJson) :
    (∀ taken, ∃ n, freeName? service.stem taken = some (service.stem ++ toString n) ∧
      FirstFree service.stem taken n) ∧
    (∀ provider name fs', fs.addStorage p category provider service = (.ok name, fs') →
      ∃ m m', fs.loadMeta p = .ok m ∧ fs'.loadMeta p = .ok m' ∧
        Provisioned category provider service name m m' ∧
        ∀ providers, ∃ names fs'',
          addStorages p category service providers fs' = (.ok names, fs'')) ∧
    (∀ m providers names fs', fs.loadMeta p = .ok m →
      addStorages p category service providers fs = (.ok names, fs') →
        names.length = providers.length ∧
          ∃ m', fs'.loadMeta p = .ok m' ∧ Extended category service names m m') ∧
    ∀ provider e fs', fs.addStorage p category provider service = (.error e, fs') →
      fs'.fileAt (fs.locationOf p) = fs.fileAt (fs.locationOf p) ∧
        ∀ text, fs.readText p = .ok text → fs'.readText p = .ok text := by
  have storable (m : ProjectMeta) (hload : fs.loadMeta p = .ok m) : Storable maxDepth m.toJson :=
    storable_of_loadMeta hload (integral m hload)
  refine ⟨exists_freeName? _, fun provider name fs' h => ?_,
    fun m providers names fs' hload h => extended_of_addStorages hload (storable m hload) h,
    fun provider e fs' h => ?_⟩
  · obtain ⟨m, hload⟩ := exists_loadMeta_of_addStorage h
    obtain ⟨m', provisioned, kept⟩ := provisioned_of_addStorage hload (storable m hload) h
    exact ⟨m, m', hload, kept.loadMeta, provisioned, kept.exists_addStorages category service⟩
  · have kept := changed_of_addStorage_error h
    have hne : fs.locationOf p ∉ [fs.locationOf p.temporary] := by
      simpa using (fs.locationOf_temporary_ne p).symm
    exact ⟨kept.files _ hne, fun text hread => kept.readText hread hne⟩

/-- Metadata whose storage resources are numbered with a gap. -/
def gappedMeta : ProjectMeta :=
  ⟨[("api", []),
    ("storage", [("dynamodb1", storageNote "cloudformation" .dynamoDb),
      ("uploads", .object [("service", .string "S3"), ("size", .number (.whole 3))]),
      ("dynamodb3", storageNote "cloudformation" .dynamoDb)]),
    ("hosting", [])]⟩

lemma storable_gappedMeta : Storable maxDepth gappedMeta.toJson := by
  have uploads : Storable (maxDepth - 2)
      (.object [("service", .string "S3"), ("size", .number (.whole 3))]) := by
    refine .object (by decide) ?_
    simp only [List.forall_mem_cons]
    exact ⟨.string _ _, .number _ ⟨by decide, by decide⟩, List.forall_mem_nil _⟩
  have note := storable_storageNote 124 "cloudformation" .dynamoDb
  refine ProjectMeta.storable_toJson_iff.mpr ⟨by decide, ?_⟩
  simp only [gappedMeta, List.forall_mem_cons]
  exact ⟨⟨List.nodup_nil, List.forall_mem_nil _⟩,
    ⟨by decide, note, uploads, note, List.forall_mem_nil _⟩,
    ⟨List.nodup_nil, List.forall_mem_nil _⟩, List.forall_mem_nil _⟩

theorem addStorage_first_free_gap :
    let fs : Filesystem := ⟨[(["meta.json"], .file (textBytes gappedMeta.toJson.pretty))], []⟩
    (∀ m, fs.loadMeta ⟨"meta.json"⟩ = .ok m → Integral m.toJson) ∧
      ∃ fs' m', fs.addStorage ⟨"meta.json"⟩ "storage" "terraform" .dynamoDb =
          (.ok "dynamodb2", fs') ∧
        fs'.loadMeta ⟨"meta.json"⟩ = .ok m' ∧
        Provisioned "storage" "terraform" .dynamoDb "dynamodb2" gappedMeta m' := by
  intro fs
  have hread : fs.readBytes ⟨"meta.json"⟩ = .ok (textBytes gappedMeta.toJson.pretty) := by
    decide +kernel
  have hload := loadMeta_of_readText (readText_of_readBytes hread) storable_gappedMeta
  have integral : ∀ m, fs.loadMeta ⟨"meta.json"⟩ = .ok m → Integral m.toJson := by
    intro m hm
    rw [← Except.ok.inj (hload.symm.trans hm)]
    exact storable_gappedMeta.integral
  have hname : freeName? StorageService.dynamoDb.stem (gappedMeta.namesIn "storage") =
      some "dynamodb2" := by decide +kernel
  have hput : (fs.writeAtomic ⟨"meta.json"⟩ (gappedMeta.add "storage" "dynamodb2"
      (storageNote "terraform" .dynamoDb)).toJson.pretty).1 = .ok () := by decide +kernel
  have hadd : ∃ fs', fs.addStorage ⟨"meta.json"⟩ "storage" "terraform" .dynamoDb =
      (.ok "dynamodb2", fs') := by
    rw [addStorage_of_loadMeta hload hname]
    split
    · next hfailed =>
      rw [hfailed] at hput
      cases hput
    · exact ⟨_, rfl⟩
  obtain ⟨fs', hadd⟩ := hadd
  obtain ⟨m, m', hm, hload', provisioned, _⟩ :=
    (addStorage_first_free ⟨"meta.json"⟩ "storage" .dynamoDb integral).2.1 _ _ _ hadd
  obtain rfl := Except.ok.inj (hload.symm.trans hm)
  exact ⟨integral, fs', m', hadd, hload', provisioned⟩

end SchemaStack.Filesystem
