import SchemaStack.Proofs.Filesystem.Replacement
/-!
# What is left of a text that is put at a path

A text is written to the sibling of its path first. If the sibling takes the place of the file,
the path holds the text and no other file is different. If the directories cannot be made or the
sibling cannot be written, every file is as it was. And if the sibling cannot be moved, it stays
where it is, with the text in it.
-/

namespace SchemaStack.Filesystem

variable {fs fs' : Filesystem} {p q : Path} {l : Location} {node : FileNode} {text : String}

/-! ## Outcomes -/

/-- A path that a file can be moved to: a name is at its end and no slash behind it, and it is not
that of a directory. -/
def Replaceable (fs : Filesystem) (p : Path) : Prop :=
  ∃ d n, fs.place p = .ok (.named d n) ∧ p.endsInSlash = false ∧
    fs.get? (d ++ [n]) ≠ some .directory

lemma exists_rename_iff (hstat : fs.stat p = .ok (l, node)) :
    (∃ fs', fs.rename p q = .ok fs') ↔ Replaceable fs q := by
  constructor
  · rintro ⟨fs', hrename⟩
    obtain ⟨_, _, d, n, _, hplace, unslashed, hget, _⟩ := rename_eq_ok_iff.mp hrename
    exact ⟨d, n, hplace, unslashed, hget⟩
  · rintro ⟨d, n, hplace, unslashed, hget⟩
    exact ⟨_, rename_eq_ok_iff.mpr ⟨l, node, d, n, hstat, hplace, unslashed, hget, rfl⟩⟩

/-- A text has been put at a path, and nothing else is different but for directories on the way. -/
structure Placed (p : Path) (text : String) (fs fs' : Filesystem) : Prop where
  content : fs'.readBytes p = .ok (textBytes text)
  files : ∀ l, l ≠ fs.locationOf p → fs'.fileAt l = fs.fileAt l
  directories : ∀ l, fs.get? l = some .directory → fs'.get? l = some .directory
  made : ∀ l, fs'.get? l = some .directory → fs.get? l = some .directory ∨ l ∈ fs.way p

/-- A text has not been put at a path. Files are as they were, but if it is the path itself that
cannot be used, its sibling holds the text. -/
structure Abandoned (p : Path) (text : String) (e : FileError) (fs fs' : Filesystem) : Prop where
  files : ∀ l, l ≠ fs.locationOf p.temporary → fs'.fileAt l = fs.fileAt l
  directories : ∀ l, fs.get? l = some .directory → fs'.get? l = some .directory
  sibling : fs'.fileAt (fs.locationOf p.temporary) =
    if e.path = p then some (textBytes text) else none
  unmoved : e.path = p → ¬ Replaceable fs' p

/-- The three points at which putting a text at a path can stop. -/
lemma stop_of_writeAtomic {e : FileError} (h : fs.writeAtomic p text = (.error e, fs')) :
    (∃ f, makeDirectories (directoriesOf p) fs = (.error f, fs') ∧ e.path = p.parent?.getD p) ∨
    (makeDirectories (directoriesOf p) fs = (.ok (), fs') ∧ e.path = p.temporary) ∨
    ∃ fs₁ f, makeDirectories (directoriesOf p) fs = (.ok (), fs₁) ∧
      fs₁.write p.temporary (textBytes text) = .ok fs' ∧ fs'.rename p.temporary p = .error f ∧
        e.path = p := by
  rw [writeAtomic] at h
  split at h
  · next f fs₁ hmakes =>
    obtain ⟨⟨⟩, rfl⟩ := Prod.mk.inj h
    exact Or.inl ⟨f, hmakes, rfl⟩
  · next fs₁ hmakes =>
    split at h
    · obtain ⟨⟨⟩, rfl⟩ := Prod.mk.inj h
      exact Or.inr (Or.inl ⟨hmakes, rfl⟩)
    · next fs₂ hwrite =>
      split at h
      · next f hrename =>
        obtain ⟨⟨⟩, rfl⟩ := Prod.mk.inj h
        exact Or.inr (Or.inr ⟨fs₁, f, hmakes, hwrite, hrename, rfl⟩)
      · cases (Prod.mk.inj h).1

/-- Directories that cannot be made are above the path, not at the path itself. -/
lemma parent_ne_of_makeDirectories {f : FileFault}
    (h : makeDirectories (directoriesOf p) fs = (.error f, fs')) : p.parent?.getD p ≠ p := by
  cases hparent : p.parent? with
  | none =>
    rw [directoriesOf, hparent] at h
    cases (Prod.mk.inj h).1
  | some q => exact Path.parent_ne hparent

/-- A text that cannot be put at a path is put at its sibling at most. -/
theorem changed_of_writeAtomic_error {e : FileError}
    (h : fs.writeAtomic p text = (.error e, fs')) :
    ChangedWithin [fs.locationOf p.temporary] fs fs' := by
  have made := (changed_makeDirectories (directoriesOf p) fs).mono
    (List.nil_subset [fs.locationOf p.temporary])
  rcases stop_of_writeAtomic h with ⟨f, hmakes, _⟩ | ⟨hmakes, _⟩ | ⟨fs₁, f, hmakes, hwrite, _⟩ <;>
    rw [hmakes] at made
  · exact made
  · exact made
  · have written := changed_write hwrite
    rw [made.locationOf_eq] at written
    exact made.trans written

lemma placed_of_writeAtomic (free : fs.get? (fs.locationOf p.temporary) = none)
    (h : fs.writeAtomic p text = (.ok (), fs')) : Placed p text fs fs' where
  content := (settled_writeAtomic h).readBytes
  files l hl := by
    rw [fileAt_writeAtomic h, if_neg hl]
    split
    · next hsibling => rw [hsibling, fileAt, free]
    · rfl
  directories := by
    have hchanged := fs.changed_writeAtomic p text
    rw [h] at hchanged
    exact hchanged.directories
  made _ hl := directory_of_writeAtomic h hl

lemma abandoned_of_writeAtomic {e : FileError}
    (free : fs.get? (fs.locationOf p.temporary) = none)
    (h : fs.writeAtomic p text = (.error e, fs')) : Abandoned p text e fs fs' := by
  have kept := changed_of_writeAtomic_error h
  have made := changed_makeDirectories (directoriesOf p) fs
  have nothing : fs.fileAt (fs.locationOf p.temporary) = none := by rw [fileAt, free]
  refine ⟨fun l hl => kept.files l (by simpa using hl), kept.directories, ?_, ?_⟩ <;>
    rcases stop_of_writeAtomic h with ⟨f, hmakes, hpath⟩ | ⟨hmakes, hpath⟩ |
      ⟨fs₁, f, hmakes, hwrite, hrename, hpath⟩ <;> rw [hmakes] at made
  · rw [hpath, if_neg (parent_ne_of_makeDirectories hmakes), made.files _ List.not_mem_nil, nothing]
  · rw [hpath, if_neg p.temporary_ne, made.files _ List.not_mem_nil, nothing]
  · rw [if_pos hpath, fileAt_eq_some_iff, ← made.locationOf_eq, get?_of_stat (stat_write hwrite)]
  · exact fun heq => absurd (hpath.symm.trans heq) (parent_ne_of_makeDirectories hmakes)
  · exact fun heq => absurd (hpath.symm.trans heq) p.temporary_ne
  · intro _ takes
    obtain ⟨fs₂, hrename'⟩ := (exists_rename_iff (stat_write hwrite)).mpr takes
    rw [hrename] at hrename'
    cases hrename'

/-- A text that is put at a path without a sibling is there afterwards and no other file is
different, or every file is as it was and there is no sibling either, unless the fault is that of
the path itself: then the sibling could not be moved there, and it stays. -/
theorem writeAtomic_leaves (free : fs.get? (fs.locationOf p.temporary) = none) :
    (fs.writeAtomic p text = (.ok (), fs') → Placed p text fs fs') ∧
      ∀ e, fs.writeAtomic p text = (.error e, fs') → Abandoned p text e fs fs' :=
  ⟨placed_of_writeAtomic free, fun _ => abandoned_of_writeAtomic free⟩

/-- A file below a new directory, a file below a file, and one in place of a directory. -/
theorem writeAtomic_leaves_notes :
    let fs : Filesystem := ⟨[(["notes"], .directory), (["blog"], .file [111])], []⟩
    (∀ p ∈ [Path.mk "new/blog", ⟨"blog/new"⟩, ⟨"notes"⟩],
      fs.get? (fs.locationOf p.temporary) = none) ∧
    Placed ⟨"new/blog"⟩ "x" fs (fs.writeAtomic ⟨"new/blog"⟩ "x").2 ∧
    Abandoned ⟨"blog/new"⟩ "x" ⟨⟨"blog"⟩, .exists⟩ fs (fs.writeAtomic ⟨"blog/new"⟩ "x").2 ∧
    Abandoned ⟨"notes"⟩ "x" ⟨⟨"notes"⟩, .isDirectory⟩ fs (fs.writeAtomic ⟨"notes"⟩ "x").2 := by
  intro fs
  have free : ∀ p ∈ [Path.mk "new/blog", ⟨"blog/new"⟩, ⟨"notes"⟩],
      fs.get? (fs.locationOf p.temporary) = none := by decide +kernel
  have hnew : (fs.writeAtomic ⟨"new/blog"⟩ "x").1 = .ok () := by decide +kernel
  have hbelow : (fs.writeAtomic ⟨"blog/new"⟩ "x").1 = .error ⟨⟨"blog"⟩, .exists⟩ := by
    decide +kernel
  have hover : (fs.writeAtomic ⟨"notes"⟩ "x").1 = .error ⟨⟨"notes"⟩, .isDirectory⟩ := by
    decide +kernel
  exact ⟨free, (writeAtomic_leaves (free _ (by decide))).1 (Prod.ext hnew rfl),
    (writeAtomic_leaves (free _ (by decide))).2 _ (Prod.ext hbelow rfl),
    (writeAtomic_leaves (free _ (by decide))).2 _ (Prod.ext hover rfl)⟩

/-- A text that cannot be put in place of a directory is left beside it. -/
theorem sibling_left : ¬ ∀ (fs : Filesystem) (p : Path) (text : String),
    fs.get? (fs.locationOf p.temporary) = none → (fs.writeAtomic p text).1 ≠ .ok () →
      (fs.writeAtomic p text).2.fileAt (fs.locationOf p.temporary) = none := by
  intro never
  have hleft := never ⟨[(["a"], .directory)], []⟩ ⟨"a"⟩ "x" (by decide +kernel) (by decide +kernel)
  revert hleft
  decide +kernel

end SchemaStack.Filesystem
