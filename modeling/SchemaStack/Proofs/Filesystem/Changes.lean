import SchemaStack.Project.Files
import SchemaStack.Proofs.Filesystem.Locations
/-!
# What writing changes

Each operation changes what is at the location that its path leads to, and making directories
changes no files. So putting a text at a path changes files at two locations at most, whether it
succeeds or not: that of the path and that of its temporary sibling.
-/

namespace SchemaStack.Filesystem

variable {fs fs' fs'' : Filesystem} {l l' : Location} {ls ls' : List Location}

lemma get?_erase (fs : Filesystem) (l l' : Location) :
    (fs.erase l).get? l' = if l' = [] then some .directory
      else if l' = l then none else fs.get? l' := by
  by_cases h0 : l' = []
  · simp [get?, h0]
  · simp only [get?, erase, h0, if_false]
    induction fs.nodes with
    | nil => simp
    | cons e ns ih =>
      obtain ⟨k, m⟩ := e
      by_cases hk : k = l
      · rw [List.filter_cons_of_neg (by simpa using hk), ih, List.lookup_cons]
        by_cases h : l' = l
        · rw [if_pos h, if_pos h]
        · have hne : (l' == k) = false := by simpa [hk] using h
          rw [if_neg h, if_neg h, hne]
      · rw [List.filter_cons_of_pos (by simpa using hk), List.lookup_cons, List.lookup_cons]
        by_cases h : l' = k
        · simp [h, hk]
        · have hne : (l' == k) = false := by simpa using h
          rw [hne]
          exact ih

lemma get?_root (fs : Filesystem) : fs.get? [] = some .directory := if_pos rfl

/-- Elsewhere all is as it was. -/
lemma get?_erase_of_ne (h : l' ≠ l) : (fs.erase l).get? l' = fs.get? l' := by
  rw [get?_erase, if_neg h]
  split
  · rename_i hroot
    rw [hroot, get?_root]
  · rfl

lemma get?_set_of_ne {n : FileNode} (h : l' ≠ l) : (fs.set l n).get? l' = fs.get? l' := by
  rw [get?_set, if_neg h]
  split
  · rename_i hroot
    rw [hroot, get?_root]
  · rfl

lemma get?_set_named (fs : Filesystem) (d : Location) (name : String) (n : FileNode) :
    (fs.set (d ++ [name]) n).get? (d ++ [name]) = some n := by
  rw [get?_set, if_neg (by simp), if_pos rfl]

/-! ## Changes -/

/-- Files are different at these locations at most, and directories have stayed. -/
structure ChangedWithin (ls : List Location) (fs fs' : Filesystem) : Prop where
  current : fs'.current = fs.current
  files : ∀ l ∉ ls, fs'.fileAt l = fs.fileAt l
  directories : ∀ l, fs.get? l = some .directory → fs'.get? l = some .directory

namespace ChangedWithin

lemma refl (ls : List Location) (fs : Filesystem) : ChangedWithin ls fs fs :=
  ⟨rfl, fun _ _ => rfl, fun _ h => h⟩

lemma trans (h : ChangedWithin ls fs fs') (h' : ChangedWithin ls fs' fs'') :
    ChangedWithin ls fs fs'' where
  current := h'.current.trans h.current
  files l hl := (h'.files l hl).trans (h.files l hl)
  directories l hl := h'.directories l (h.directories l hl)

lemma mono (h : ChangedWithin ls fs fs') (hsubset : ls ⊆ ls') : ChangedWithin ls' fs fs' where
  current := h.current
  files l hl := h.files l fun hmem => hl (hsubset hmem)
  directories := h.directories

lemma start_eq (h : ChangedWithin ls fs fs') (p : Path) : fs'.start p = fs.start p := by
  rw [start, start, h.current]

/-- Changes of files leave the directories, so a path leads to where it did. -/
lemma locationOf_eq (h : ChangedWithin ls fs fs') (p : Path) :
    fs'.locationOf p = fs.locationOf p := by
  rw [locationOf, locationOf, h.start_eq]

lemma way_eq (h : ChangedWithin ls fs fs') (p : Path) : fs'.way p = fs.way p := by
  rw [way, way, h.start_eq]

/-- Where directories stay, paths lead where they led. -/
lemma descend (h : ChangedWithin ls fs fs') {ss : List String}
    (busy : ∀ s ∈ ss, Path.isIdle s = false) (hd : fs.descend l ss = .ok l') :
    fs'.descend l ss = .ok l' := by
  obtain ⟨hl', hshort, hway⟩ := (descend_eq_ok_iff busy).mp hd
  exact (descend_eq_ok_iff busy).mpr ⟨hl', hshort, fun x hx => h.directories x (hway x hx)⟩

/-- A place that a path leads to stays there. -/
lemma place (h : ChangedWithin ls fs fs') {p : Path} {d : Location} {n : String}
    (hplace : fs.place p = .ok (.named d n)) : fs'.place p = .ok (.named d n) := by
  obtain ⟨sound, names, hd⟩ := place_eq_named_iff.mp hplace
  refine place_eq_named_iff.mpr ⟨sound, names, ?_⟩
  rw [h.start_eq]
  exact h.descend (busy_dropLast p) hd

lemma isDirectory (h : ChangedWithin ls fs fs') {p : Path} (hp : fs.isDirectory p = true) :
    fs'.isDirectory p = true := by
  obtain ⟨sound, l, hl⟩ := isDirectory_iff.mp hp
  refine isDirectory_iff.mpr ⟨sound, l, ?_⟩
  rw [h.start_eq]
  exact h.descend (busy_steps p) hl

end ChangedWithin

lemma fileAt_congr {fs fs' : Filesystem} (h : fs'.get? l = fs.get? l) :
    fs'.fileAt l = fs.fileAt l := by
  rw [fileAt, fileAt, h]

lemma changed_set_file (hl : fs.get? l ≠ some .directory) (bytes : List UInt8) :
    ChangedWithin [l] fs (fs.set l (.file bytes)) where
  current := rfl
  files l' hl' := fileAt_congr (get?_set_of_ne (by simpa using hl'))
  directories l' hl' := by
    have hne : l' ≠ l := by
      rintro rfl
      exact hl hl'
    rwa [get?_set_of_ne hne]

/-- A directory that is new is no change to files. -/
lemma changed_set_directory (hl : fs.get? l = none) :
    ChangedWithin [] fs (fs.set l .directory) where
  current := rfl
  files l' _ := by
    by_cases heq : l' = l
    · subst heq
      have hdirectory : (fs.set l' .directory).get? l' = some .directory := by
        rw [get?_set, if_pos rfl, ite_self]
      rw [fileAt_of_directory hdirectory, fileAt, hl]
    · exact fileAt_congr (get?_set_of_ne heq)
  directories l' hl' := by
    have hne : l' ≠ l := by
      rintro rfl
      rw [hl] at hl'
      cases hl'
    rwa [get?_set_of_ne hne]

lemma changed_erase {bytes : List UInt8} (hl : fs.get? l = some (.file bytes)) :
    ChangedWithin [l] fs (fs.erase l) where
  current := rfl
  files l' hl' := fileAt_congr (get?_erase_of_ne (by simpa using hl'))
  directories l' hl' := by
    have hne : l' ≠ l := by
      rintro rfl
      rw [hl] at hl'
      cases hl'
    rwa [get?_erase_of_ne hne]

/-! ## Operations -/

section Operations

variable {p q : Path} {bytes : List UInt8}

lemma write_eq_ok_iff : fs.write p bytes = .ok fs' ↔ ∃ d n, fs.place p = .ok (.named d n) ∧
    p.endsInSlash = false ∧ fs.get? (d ++ [n]) ≠ some .directory ∧
      fs' = fs.set (d ++ [n]) (.file bytes) := by
  rw [write]
  cases hplace : fs.place p with
  | error f => exact iff_of_false (by rintro ⟨⟩) (by rintro ⟨_, _, ⟨⟩, _⟩)
  | ok pl =>
    rw [ok_bind]
    cases pl with
    | itself l => exact iff_of_false (by rintro ⟨⟩) (by rintro ⟨_, _, ⟨⟩, _⟩)
    | named d n =>
      simp only [Except.ok.injEq, Place.named.injEq, and_assoc, exists_and_left, exists_eq_left']
      cases hslash : p.endsInSlash with
      | true => simp
      | false =>
        cases hget : fs.get? (d ++ [n]) with
        | none => simp [eq_comm]
        | some node => cases node <;> simp [eq_comm]

lemma rename_eq_ok_iff : fs.rename p q = .ok fs' ↔ ∃ l node d n, fs.stat p = .ok (l, node) ∧
    fs.place q = .ok (.named d n) ∧ q.endsInSlash = false ∧
      fs.get? (d ++ [n]) ≠ some .directory ∧ fs' = (fs.erase l).set (d ++ [n]) node := by
  rw [rename]
  cases hstat : fs.stat p with
  | error f => exact iff_of_false (by rintro ⟨⟩) (by rintro ⟨_, _, _, _, ⟨⟩, _⟩)
  | ok source =>
    obtain ⟨l, node⟩ := source
    rw [ok_bind]
    cases hplace : fs.place q with
    | error f => exact iff_of_false (by rintro ⟨⟩) (by rintro ⟨_, _, _, _, _, ⟨⟩, _⟩)
    | ok pl =>
      cases pl with
      | itself m => exact iff_of_false (by rintro ⟨⟩) (by rintro ⟨_, _, _, _, _, ⟨⟩, _⟩)
      | named d n =>
        simp only [Except.ok.injEq, Place.named.injEq, Prod.mk.injEq, and_assoc, exists_and_left,
          exists_eq_left']
        rw [ok_bind]
        cases hslash : q.endsInSlash with
        | true => simp
        | false =>
          cases hget : fs.get? (d ++ [n]) with
          | none => simp [hget, eq_comm]
          | some node' => cases node' <;> simp [hget, eq_comm]

lemma makeDirectory_eq_ok_iff : fs.makeDirectory p = .ok fs' ↔
    ∃ d n, fs.place p = .ok (.named d n) ∧ fs.get? (d ++ [n]) = none ∧
      fs' = fs.set (d ++ [n]) .directory := by
  rw [makeDirectory]
  cases hplace : fs.place p with
  | error f => exact iff_of_false (by rintro ⟨⟩) (by rintro ⟨_, _, ⟨⟩, _⟩)
  | ok pl =>
    rw [ok_bind]
    cases pl with
    | itself l => exact iff_of_false (by rintro ⟨⟩) (by rintro ⟨_, _, ⟨⟩, _⟩)
    | named d n =>
      simp only [Except.ok.injEq, Place.named.injEq, and_assoc, exists_and_left, exists_eq_left']
      cases hget : fs.get? (d ++ [n]) <;> simp [eq_comm]

lemma changed_write (h : fs.write p bytes = .ok fs') :
    ChangedWithin [fs.locationOf p] fs fs' := by
  obtain ⟨d, n, hplace, _, hget, rfl⟩ := write_eq_ok_iff.mp h
  rw [← location_of_place hplace]
  exact changed_set_file hget bytes

/-- What was written is there. -/
lemma stat_write (h : fs.write p bytes = .ok fs') :
    fs'.stat p = .ok (fs.locationOf p, .file bytes) := by
  have hchanged := changed_write h
  obtain ⟨d, n, hplace, hslash, _, rfl⟩ := write_eq_ok_iff.mp h
  have hget := get?_set_named fs d n (.file bytes)
  rw [stat, hchanged.place hplace, ok_bind, ← location_of_place hplace]
  simp only [hget, hslash]
  rfl

lemma get?_of_stat {l : Location} (h : fs.stat p = .ok (l, .file bytes)) :
    fs.get? l = some (.file bytes) := by
  rw [stat] at h
  obtain ⟨pl, _, h⟩ := bind_eq_ok h
  cases pl with
  | itself m => cases h
  | named d n =>
    dsimp only at h
    split at h
    · cases h
    · cases h
    · rename_i hget
      split at h
      · cases h
      · obtain ⟨rfl, heq⟩ := Prod.mk.inj (Except.ok.inj h)
        rw [hget, heq]

/-- A file is gone from where it was and there where it is moved to. -/
lemma changed_rename {l : Location} (hstat : fs.stat p = .ok (l, .file bytes))
    (h : fs.rename p q = .ok fs') : ChangedWithin [l, fs.locationOf q] fs fs' := by
  obtain ⟨l', node, d, n, hstat', hplace, _, hget, rfl⟩ := rename_eq_ok_iff.mp h
  obtain ⟨rfl, rfl⟩ := Prod.mk.inj (Except.ok.inj (hstat.symm.trans hstat'))
  have herase := changed_erase (get?_of_stat hstat)
  have hfree : (fs.erase l).get? (d ++ [n]) ≠ some .directory := by
    rw [get?_erase, if_neg (by simp)]
    split
    · simp
    · exact hget
  have hset := changed_set_file hfree bytes
  rw [location_of_place hplace] at hset ⊢
  exact (herase.mono (by simp)).trans (hset.mono (by simp))

lemma changed_makeDirectory (h : fs.makeDirectory p = .ok fs') : ChangedWithin [] fs fs' := by
  obtain ⟨d, n, _, hget, rfl⟩ := makeDirectory_eq_ok_iff.mp h
  exact changed_set_directory hget

/-- A directory that was made is there. -/
lemma isDirectory_makeDirectory (h : fs.makeDirectory p = .ok fs') :
    fs'.isDirectory p = true := by
  have hchanged := changed_makeDirectory h
  obtain ⟨d, n, hplace, _, rfl⟩ := makeDirectory_eq_ok_iff.mp h
  rw [isDirectory_of_named (hchanged.place hplace), get?_set_named]

/-- Making directories changes no files. -/
lemma changed_makeDirectories (ps : List Path) (fs : Filesystem) :
    ChangedWithin [] fs (makeDirectories ps fs).2 := by
  induction ps generalizing fs with
  | nil => exact .refl _ _
  | cons p ps ih =>
    rw [makeDirectories]
    split
    · exact .refl _ _
    · dsimp only
      split
      · rename_i fs' hmade
        exact changed_makeDirectory hmade
      · have habove := ih fs
        split
        · rename_i f fs' hfailed
          rwa [hfailed] at habove
        · rename_i fs' hmade
          rw [hmade] at habove
          split
          · rename_i fs'' hp
            exact habove.trans (changed_makeDirectory hp)
          · exact habove
      · exact .refl _ _

/-! ## Putting texts at paths -/

/-- Where putting a text at a path may change files. -/
def footprint (fs : Filesystem) (p : Path) : List Location :=
  [fs.locationOf p, fs.locationOf p.temporary]

lemma ChangedWithin.footprint_eq (h : ChangedWithin ls fs fs') (p : Path) :
    fs'.footprint p = fs.footprint p := by
  rw [footprint, footprint, h.locationOf_eq, h.locationOf_eq]

/-- Putting a text at a path changes files at the path and at its sibling only, whether or not it
succeeds. -/
theorem changed_writeAtomic (fs : Filesystem) (p : Path) (text : String) :
    ChangedWithin (fs.footprint p) fs (fs.writeAtomic p text).2 := by
  have hdirectories := (changed_makeDirectories (directoriesOf p) fs).mono
    (List.nil_subset (fs.footprint p))
  rw [writeAtomic]
  split
  · rename_i f fs' hfailed
    rwa [hfailed] at hdirectories
  · rename_i fs₁ hmade
    rw [hmade] at hdirectories
    split
    · exact hdirectories
    · rename_i fs₂ hwrite
      have hwritten := changed_write hwrite
      rw [hdirectories.locationOf_eq] at hwritten
      have hboth := hdirectories.trans (hwritten.mono (by simp [footprint]))
      split
      · exact hboth
      · rename_i fs₃ hrename
        have hstat := stat_write hwrite
        rw [hdirectories.locationOf_eq] at hstat
        have hrenamed := changed_rename hstat hrename
        rw [hboth.locationOf_eq] at hrenamed
        exact hboth.trans (hrenamed.mono (by simp [footprint]))

end Operations

end SchemaStack.Filesystem
