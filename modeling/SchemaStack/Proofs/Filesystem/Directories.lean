import SchemaStack.Proofs.Filesystem.Changes
/-!
# Making directories

The directories above a path can be made if there is no file in the way, and then they are all
there. Two filesystems that differ in files elsewhere agree on whether a text can be put at a path.
-/

namespace SchemaStack.Filesystem

variable {fs fs' : Filesystem} {p q : Path}

/-! ## One directory -/

lemma locationOf_concat {init : List String} {n : String} (hsteps : p.steps = init ++ [n])
    (forward : n ≠ "..") : fs.locationOf p = init.foldl go (fs.start p) ++ [n] := by
  rw [locationOf, hsteps, List.foldl_append, List.foldl_cons, List.foldl_nil, go, if_neg forward]

/-- The way to a path is that of its parent, and the location of the path itself unless it steps
back. -/
lemma way_concat {init : List String} {n : String} (hsteps : p.steps = init ++ [n]) :
    fs.way p = route (fs.start p) init ++ if n = ".." then [] else [fs.locationOf p] := by
  rw [way, hsteps, route_append, route]
  by_cases hback : n = ".."
  · rw [if_pos hback, if_pos hback, route]
  · rw [if_neg hback, if_neg hback, route, locationOf_concat hsteps hback]

lemma location_mem_way {d : Location} {n : String} (h : fs.place p = .ok (.named d n)) :
    fs.locationOf p ∈ fs.way p := by
  obtain ⟨_, names, _⟩ := place_eq_named_iff.mp h
  obtain ⟨init, hsteps, _⟩ := names.steps
  rw [way_concat hsteps, if_neg names.forward]
  exact List.mem_append_right _ List.mem_cons_self

/-- The directories on the way to a directory are there. -/
lemma directory_of_mem_way (h : fs.isDirectory p = true) {x : Location} (hx : x ∈ fs.way p) :
    fs.get? x = some .directory := by
  obtain ⟨_, l, hl⟩ := isDirectory_iff.mp h
  exact ((descend_eq_ok_iff (busy_steps p)).mp hl).2.2 x hx

lemma makeDirectory_of_isDirectory (h : fs.isDirectory p = true) :
    fs.makeDirectory p = .error .exists := by
  rw [makeDirectory]
  cases hplace : fs.place p with
  | error f =>
    rw [isDirectory, stat, hplace] at h
    cases h
  | ok pl =>
    cases pl with
    | itself l => rfl
    | named d n =>
      rw [isDirectory_of_named hplace] at h
      rw [ok_bind]
      simp only [h]

lemma Short.above (short : Short p.steps) : Short p.steps.dropLast :=
  fun s hs => short s (List.dropLast_subset p.steps hs)

/-- What is asked of a path so that it can be made a directory. -/
structure Clear (fs : Filesystem) (p : Path) : Prop where
  sound : Sound p
  short : Short p.steps
  neat : p.Neat
  files : ∀ x ∈ fs.way p, fs.fileAt x = none

/-- A path that nothing is in the way of is a directory already, or it can be made one, or a
directory is missing before it. -/
lemma Clear.makeDirectory (clear : Clear fs p) : fs.isDirectory p = true ∨
    (∃ fs', fs.makeDirectory p = .ok fs') ∨
      fs.makeDirectory p = .error .notFound ∧ ∃ f, fs.place p = .error f := by
  cases hplace : fs.place p with
  | error f =>
    refine Or.inr (Or.inr ⟨?_, f, rfl⟩)
    have hdescend : fs.descend (fs.start p) p.steps = .error f := by
      rw [← Path.filter_names, descend_filter, ← walk_settle, ← place_of_sound clear.sound, hplace]
      rfl
    have hf := eq_notFound_of_descend (busy_steps p) clear.short clear.files hdescend
    rw [Filesystem.makeDirectory, hplace, hf]
    rfl
  | ok pl =>
    cases pl with
    | itself l => exact Or.inl (isDirectory_of_itself hplace)
    | named d n =>
      cases hget : fs.get? (d ++ [n]) with
      | none => exact Or.inr (Or.inl ⟨_, makeDirectory_eq_ok_iff.mpr ⟨d, n, hplace, hget, rfl⟩⟩)
      | some node =>
        cases node with
        | directory => exact Or.inl ((isDirectory_of_named hplace).mpr hget)
        | file bytes =>
          have hfile := fileAt_eq_some_iff.mpr hget
          rw [location_of_place hplace, clear.files _ (location_mem_way hplace)] at hfile
          cases hfile

lemma exists_place_of_isDirectory (h : fs.isDirectory p = true) : ∃ pl, fs.place p = .ok pl := by
  cases hplace : fs.place p with
  | error f =>
    rw [isDirectory, stat, hplace] at h
    cases h
  | ok pl => exact ⟨pl, rfl⟩

/-- Where the directories before it are there, a path leads somewhere. -/
lemma Clear.exists_place (clear : Clear fs p)
    (there : ∀ x ∈ route (fs.start p) p.steps.dropLast, fs.get? x = some .directory) :
    ∃ pl, fs.place p = .ok pl := by
  -- without a name at the end it leads to a directory
  have nameless (hway : fs.way p = route (fs.start p) p.steps.dropLast) :
      ∃ pl, fs.place p = .ok pl := by
    rw [← hway] at there
    have hdescend : fs.descend (fs.start p) p.steps = .ok (fs.locationOf p) :=
      (descend_eq_ok_iff (busy_steps p)).mpr ⟨rfl, clear.short, there⟩
    exact exists_place_of_isDirectory (isDirectory_iff.mpr ⟨clear.sound, _, hdescend⟩)
  rcases List.eq_nil_or_concat' p.steps with hnil | ⟨init, n, hsteps⟩
  · exact nameless (by rw [way, hnil]; rfl)
  · have hinit : p.steps.dropLast = init := by rw [hsteps, List.dropLast_concat]
    by_cases hback : n = ".."
    · exact nameless (by rw [way_concat hsteps, if_pos hback, List.append_nil, hinit])
    · have hmem : n ∈ p.steps := hsteps ▸ List.mem_append_right _ List.mem_cons_self
      have hstill : n ≠ "." := by
        rintro rfl
        exact Bool.noConfusion (busy_steps p _ hmem)
      have names : Names p n :=
        ⟨clear.neat.last hsteps, hstill, hback, clear.short n hmem hback⟩
      have hdescend := (descend_eq_ok_iff (busy_dropLast p)).mpr ⟨rfl, clear.short.above, there⟩
      exact ⟨_, place_eq_named_iff.mpr ⟨clear.sound, names, hdescend⟩⟩

/-! ## Directories above a path -/

lemma Sound.parent (sound : Sound p) (h : p.parent? = some q) (hq : q.text ≠ "") : Sound q := by
  obtain ⟨cs, hcs⟩ := Path.text_parent h
  have htext : p.text = q.text ++ String.ofList cs := by
    rw [← String.toList_inj, String.toList_append, String.toList_ofList, hcs]
  have hshort := sound.short
  rw [htext, String.utf8ByteSize_append] at hshort
  refine ⟨fun hmem => sound.plain ?_, by omega, hq⟩
  rw [← hcs]
  exact List.mem_append_left cs hmem

lemma way_parent (h : p.parent? = some q) : fs.way q = route (fs.start p) p.steps.dropLast := by
  rw [way, start, start, Path.isAbsolute_parent h, Path.steps_parent h]

lemma way_parent_subset (h : p.parent? = some q) : fs.way q ⊆ fs.way p := by
  rw [way_parent h]
  rcases List.eq_nil_or_concat' p.steps with hnil | ⟨init, n, hsteps⟩
  · rw [hnil]
    exact List.nil_subset _
  · rw [way_concat hsteps, hsteps, List.dropLast_concat]
    exact List.subset_append_left _ _

lemma Clear.parent (clear : Clear fs p) (h : p.parent? = some q) (hq : q.text ≠ "") :
    Clear fs q where
  sound := clear.sound.parent h hq
  short := by
    rw [Path.steps_parent h]
    exact clear.short.above
  neat := Path.neat_parent h
  files x hx := clear.files x (way_parent_subset h hx)

lemma Clear.of_changed (clear : Clear fs p) (h : ChangedWithin [] fs fs') : Clear fs' p where
  sound := clear.sound
  short := clear.short
  neat := clear.neat
  files x hx := by
    rw [h.way_eq] at hx
    rw [h.files x List.not_mem_nil, clear.files x hx]

/-- The directories on the way to a path have been made, as far as they were missing, and nothing
else. -/
structure Made (p : Path) (fs fs' : Filesystem) : Prop where
  changed : ChangedWithin [] fs fs'
  there : ∀ x ∈ fs.way p, fs'.get? x = some .directory
  only : ∀ x, fs'.get? x = some .directory → fs.get? x = some .directory ∨ x ∈ fs.way p

lemma made_of_isDirectory (h : fs.isDirectory p = true) : Made p fs fs :=
  ⟨.refl _ _, fun _ hx => directory_of_mem_way h hx, fun _ hx => Or.inl hx⟩

lemma made_of_makeDirectory (h : fs.makeDirectory p = .ok fs') : Made p fs fs' := by
  have hchanged := changed_makeDirectory h
  have hthere := isDirectory_makeDirectory h
  refine ⟨hchanged, fun x hx => ?_, fun x hx => ?_⟩
  · rw [← hchanged.way_eq] at hx
    exact directory_of_mem_way hthere hx
  · obtain ⟨d, n, hplace, _, rfl⟩ := makeDirectory_eq_ok_iff.mp h
    by_cases heq : x = d ++ [n]
    · rw [heq, location_of_place hplace]
      exact Or.inr (location_mem_way hplace)
    · rw [get?_set_of_ne heq] at hx
      exact Or.inl hx

lemma Made.trans {fs₁ fs₂ : Filesystem} (h : p.parent? = some q) (above : Made q fs fs₁)
    (made : Made p fs₁ fs₂) : Made p fs fs₂ where
  changed := above.changed.trans made.changed
  there x hx := made.there x (above.changed.way_eq p ▸ hx)
  only x hx := by
    rcases made.only x hx with hx | hx
    · exact (above.only x hx).imp_right fun hx => way_parent_subset h hx
    · rw [above.changed.way_eq] at hx
      exact Or.inr hx

lemma made_of_empty (h : p.text = "") : Made p fs fs := by
  obtain ⟨text⟩ := p
  change text = "" at h
  subst h
  exact ⟨.refl _ _, List.forall_mem_nil _, fun _ hx => Or.inl hx⟩

/-- After the directories above it have been made, a path that nothing is in the way of is a
directory or can be made one. -/
lemma Clear.makeDirectory_above {fs₁ : Filesystem} (clear : Clear fs p)
    (hparent : p.parent? = some q) (above : Made q fs fs₁) :
    fs₁.isDirectory p = true ∨ ∃ fs₂, fs₁.makeDirectory p = .ok fs₂ := by
  have clear₁ := clear.of_changed above.changed
  have hthere := above.there
  rw [way_parent hparent, ← above.changed.start_eq] at hthere
  obtain ⟨pl, hpl⟩ := clear₁.exists_place hthere
  rcases clear₁.makeDirectory with hdirectory | hmade | ⟨_, f, hplace⟩
  · exact Or.inl hdirectory
  · exact Or.inr hmade
  · cases hplace.symm.trans hpl

/-- A path that nothing is in the way of can be made a directory, from the first one that is
missing on. -/
lemma makeDirectories_ancestorsFrom {n : Nat} (enough : p.steps.length < n)
    (clear : p.text ≠ "" → Clear fs p) :
    ∃ fs', makeDirectories (Path.ancestorsFrom n p) fs = (.ok (), fs') ∧ Made p fs fs' := by
  induction n generalizing p fs with
  | zero => omega
  | succ n ih =>
    rw [Path.ancestorsFrom, makeDirectories]
    by_cases hempty : p.text = ""
    · exact ⟨fs, if_pos (by simpa using hempty), made_of_empty hempty⟩
    have clear := clear hempty
    rw [if_neg (by simpa using hempty)]
    rcases clear.makeDirectory with hthere | ⟨fs', hmade⟩ | ⟨hmissing, f, hplace⟩
    · rw [makeDirectory_of_isDirectory hthere]
      exact ⟨fs, by simp only [hthere, if_true], made_of_isDirectory hthere⟩
    · rw [hmade]
      exact ⟨fs', rfl, made_of_makeDirectory hmade⟩
    · have hne : p.steps ≠ [] := by
        intro hnil
        obtain ⟨pl, hpl⟩ := clear.exists_place (by simp [hnil, route])
        cases hplace.symm.trans hpl
      obtain ⟨q, hparent⟩ := Path.exists_parent hne
      have hpositive := List.length_pos_iff.mpr hne
      have hlength : q.steps.length = p.steps.length - 1 := by
        rw [Path.steps_parent hparent, List.length_dropLast]
      obtain ⟨fs₁, habove, above⟩ := ih (by omega) fun hq => clear.parent hparent hq
      rw [hmissing, hparent]
      simp only [habove]
      rcases clear.makeDirectory_above hparent above with hthere | ⟨fs₂, hmade⟩
      · rw [makeDirectory_of_isDirectory hthere]
        exact ⟨fs₁, by simp only [hthere, if_true],
          above.trans hparent (made_of_isDirectory hthere)⟩
      · rw [hmade]
        exact ⟨fs₂, rfl, above.trans hparent (made_of_makeDirectory hmade)⟩

/-! ## One text, two filesystems -/

section Transfer

variable {gs gs' : Filesystem} {ls : List Location} {l d : Location} {n : String}

lemma ChangedWithin.set (h : ChangedWithin ls fs gs) (l : Location) (node : FileNode) :
    ChangedWithin ls (fs.set l node) (gs.set l node) where
  current := h.current
  files x hx := by
    by_cases heq : x = l
    · rw [fileAt, fileAt, get?_set, get?_set, if_pos heq, if_pos heq]
    · rw [fileAt_congr (get?_set_of_ne heq), fileAt_congr (get?_set_of_ne heq), h.files x hx]
  directories x hx := by
    by_cases heq : x = l
    · rw [get?_set, if_pos heq] at hx ⊢
      exact hx
    · rw [get?_set_of_ne heq] at hx ⊢
      exact h.directories x hx

lemma ChangedWithin.erase (h : ChangedWithin ls fs gs) (l : Location) :
    ChangedWithin ls (fs.erase l) (gs.erase l) where
  current := h.current
  files x hx := by
    by_cases heq : x = l
    · rw [fileAt, fileAt, get?_erase, get?_erase, if_pos heq, if_pos heq]
    · rw [fileAt_congr (get?_erase_of_ne heq), fileAt_congr (get?_erase_of_ne heq), h.files x hx]
  directories x hx := by
    by_cases heq : x = l
    · rw [get?_erase, if_pos heq] at hx ⊢
      exact hx
    · rw [get?_erase_of_ne heq] at hx ⊢
      exact h.directories x hx

/-- A path leads to the same name wherever the directories before it are there. -/
lemma place_of_there (hplace : gs.place p = .ok (.named d n)) (hstart : fs.start p = gs.start p)
    (there : ∀ x ∈ route (gs.start p) p.steps.dropLast, fs.get? x = some .directory) :
    fs.place p = .ok (.named d n) := by
  obtain ⟨sound, names, hdescend⟩ := place_eq_named_iff.mp hplace
  obtain ⟨hd, hshort, _⟩ := (descend_eq_ok_iff (busy_dropLast p)).mp hdescend
  refine place_eq_named_iff.mpr ⟨sound, names, ?_⟩
  rw [hstart]
  exact (descend_eq_ok_iff (busy_dropLast p)).mpr ⟨hd, hshort, there⟩

lemma writeAtomic_eq_ok_iff {text : String} : fs.writeAtomic p text = (.ok (), fs') ↔
    ∃ fs₁ fs₂, makeDirectories (directoriesOf p) fs = (.ok (), fs₁) ∧
      fs₁.write p.temporary (textBytes text) = .ok fs₂ ∧ fs₂.rename p.temporary p = .ok fs' := by
  rw [writeAtomic]
  cases hmade : makeDirectories (directoriesOf p) fs with
  | mk result fs₁ =>
    cases result with
    | error f => simp
    | ok _ =>
      cases hwrite : fs₁.write p.temporary (textBytes text) with
      | error f => simp [hwrite]
      | ok fs₂ =>
        cases hrename : fs₂.rename p.temporary p with
        | error f => simp [hwrite, hrename]
        | ok fs₃ => simp [hwrite, hrename]

/-- A path and its temporary sibling are in the same directory, which is there if the sibling leads
to a name. -/
lemma above_temporary (names : Names p n) (hparent : p.parent? = some q) {m : String}
    (hplace : fs.place p.temporary = .ok (.named d m)) :
    p.temporary.steps.dropLast = p.steps.dropLast ∧ fs.start p.temporary = fs.start p ∧
      Short p.steps.dropLast ∧ ∀ x ∈ fs.way q, fs.get? x = some .directory := by
  obtain ⟨init, hsteps, _⟩ := names.steps
  obtain ⟨htemporary, habsolute⟩ := Path.steps_temporary hsteps names.forward
  have habove : p.temporary.steps.dropLast = p.steps.dropLast := by
    rw [htemporary, hsteps, List.dropLast_concat, List.dropLast_concat]
  have hstart : fs.start p.temporary = fs.start p := by rw [start, start, habsolute]
  obtain ⟨_, _, hdescend⟩ := place_eq_named_iff.mp hplace
  obtain ⟨_, hshort, hthere⟩ := (descend_eq_ok_iff (busy_dropLast p.temporary)).mp hdescend
  rw [habove] at hshort
  rw [hstart, habove, ← way_parent hparent] at hthere
  exact ⟨habove, hstart, hshort, hthere⟩

/-- Where directories have been made in one of two filesystems, they can be made in the other. -/
lemma exists_directories {gs₁ : Filesystem} (h : ChangedWithin ls fs gs)
    (made : ChangedWithin [] gs gs₁) (hparent : p.parent? = some q) (sound : Sound p)
    (short : Short p.steps.dropLast) (there : ∀ x ∈ gs.way q, gs₁.get? x = some .directory)
    (free : ∀ x ∈ fs.way q, x ∈ ls → fs.fileAt x = none) :
    ∃ fs₁, makeDirectories (directoriesOf p) fs = (.ok (), fs₁) ∧ Made q fs fs₁ ∧
      ChangedWithin ls fs₁ gs₁ := by
  have hway := h.way_eq q
  have files : ∀ x ∈ fs.way q, fs.fileAt x = none := by
    intro x hx
    by_cases hmem : x ∈ ls
    · exact free x hx hmem
    · rw [← hway] at hx
      rw [← h.files x hmem, ← made.files x List.not_mem_nil, fileAt_of_directory (there x hx)]
  have clear : q.text ≠ "" → Clear fs q := fun hq => {
    sound := sound.parent hparent hq
    short := by rwa [Path.steps_parent hparent]
    neat := Path.neat_parent hparent
    files }
  have enough : q.steps.length < q.segments.length + 1 :=
    Nat.lt_succ_of_le (List.length_filter_le _ _)
  obtain ⟨fs₁, hmakes, hmade⟩ := makeDirectories_ancestorsFrom enough clear
  refine ⟨fs₁, by rw [directoriesOf, hparent]; exact hmakes, hmade, ?_, ?_, ?_⟩
  · rw [made.current, h.current, hmade.changed.current]
  · intro x hx
    rw [made.files x List.not_mem_nil, h.files x hx, hmade.changed.files x List.not_mem_nil]
  · intro x hx
    rcases hmade.only x hx with hx | hx
    · exact made.directories x (h.directories x hx)
    · exact there x (hway ▸ hx)

/-- A file that takes its place by way of its sibling in one of two filesystems can do so in the
other one, if the directories above it are there. -/
lemma exists_replacement {gs₂ : Filesystem} {bytes : List UInt8} (h : ChangedWithin ls fs gs)
    (hparent : p.parent? = some q) (there : ∀ x ∈ fs.way q, fs.get? x = some .directory)
    (hwrite : gs.write p.temporary bytes = .ok gs₂) (hrename : gs₂.rename p.temporary p = .ok gs') :
    ∃ fs₂ fs', fs.write p.temporary bytes = .ok fs₂ ∧ fs₂.rename p.temporary p = .ok fs' ∧
      ChangedWithin ls fs' gs' := by
  have hwritten := stat_write hwrite
  obtain ⟨d', n', hplace', hslash', hget', rfl⟩ := write_eq_ok_iff.mp hwrite
  obtain ⟨l, node, d, n, hstat, hplace, hslash, hget, rfl⟩ := rename_eq_ok_iff.mp hrename
  obtain ⟨rfl, rfl⟩ := Prod.mk.inj (Except.ok.inj (hwritten.symm.trans hstat))
  obtain ⟨_, names, _⟩ := place_eq_named_iff.mp hplace
  obtain ⟨habove, hstart, _⟩ := above_temporary names hparent hplace'
  rw [way_parent hparent, ← h.start_eq] at there
  have hwrite' : fs.write p.temporary bytes = .ok (fs.set (d' ++ [n']) (.file bytes)) := by
    refine write_eq_ok_iff.mpr ⟨d', n', ?_, hslash', fun hd => hget' (h.directories _ hd), rfl⟩
    refine place_of_there hplace' (h.start_eq _).symm ?_
    rw [hstart, habove]
    exact there
  have h₂ := h.set (d' ++ [n']) (.file bytes)
  have hplace₂ : (fs.set (d' ++ [n']) (.file bytes)).place p = .ok (.named d n) :=
    place_of_there hplace (h₂.start_eq _).symm fun x hx =>
      (changed_write hwrite').directories x (there x hx)
  have hstat₂ := stat_write hwrite'
  rw [← h.locationOf_eq] at hstat₂
  exact ⟨_, _, hwrite', rename_eq_ok_iff.mpr ⟨_, _, d, n, hstat₂, hplace₂, hslash,
    fun hd => hget (h₂.directories _ hd), rfl⟩, (h₂.erase _).set (d ++ [n]) _⟩

/-- Two filesystems that differ in some files can both take a text at a path, if in neither of them
such a file is on the way, and then they differ as before. -/
theorem exists_writeAtomic {text : String} (h : ChangedWithin ls fs gs)
    (free : ∀ x ∈ fs.way p, x ∈ ls → fs.fileAt x = none)
    (hput : gs.writeAtomic p text = (.ok (), gs')) :
    ∃ fs', fs.writeAtomic p text = (.ok (), fs') ∧ ChangedWithin ls fs' gs' := by
  obtain ⟨gs₁, gs₂, hmakes, hwrite, hrename⟩ := writeAtomic_eq_ok_iff.mp hput
  have made := changed_makeDirectories (directoriesOf p) gs
  rw [hmakes] at made
  obtain ⟨_, _, hplace', _⟩ := write_eq_ok_iff.mp hwrite
  obtain ⟨_, _, _, _, _, hplace, _⟩ := rename_eq_ok_iff.mp hrename
  obtain ⟨sound, names, _⟩ := place_eq_named_iff.mp hplace
  obtain ⟨init, hsteps, _⟩ := names.steps
  obtain ⟨q, hparent⟩ := Path.exists_parent (Path.ne_nil_of_steps hsteps)
  obtain ⟨_, _, hshort, hthere⟩ := above_temporary names hparent hplace'
  rw [made.way_eq] at hthere
  obtain ⟨fs₁, hmakes', made', h₁⟩ := exists_directories h made hparent sound hshort hthere
    fun x hx => free x (way_parent_subset hparent hx)
  have hthere₁ := made'.there
  rw [← made'.changed.way_eq] at hthere₁
  obtain ⟨fs₂, fs', hwrite', hrename', h'⟩ :=
    exists_replacement h₁ hparent hthere₁ hwrite hrename
  exact ⟨fs', writeAtomic_eq_ok_iff.mpr ⟨fs₁, fs₂, hmakes', hwrite', hrename'⟩, h'⟩

end Transfer

end SchemaStack.Filesystem
