import SchemaStack.Proofs.Filesystem.Directories
import Mathlib.Data.List.Flatten
/-!
# Texts that have been put at paths

After a text has been put at a path, the file there holds it and its sibling is gone. This stays so
while texts are put elsewhere, as long as nothing else is written at these two locations and the
sibling is not made a directory. Then the same texts can be put at the same paths again, and
nothing changes.
-/

namespace SchemaStack.Filesystem

variable {fs fs' fs₁ : Filesystem} {p q : Path} {l l' : Location} {ls : List Location}
  {bytes : List UInt8} {text : String}

/-! ## Reading what has stayed -/

lemma stat_of_file {d : Location} {n : String} (hplace : fs.place p = .ok (.named d n))
    (unslashed : p.endsInSlash = false) (hget : fs.get? (d ++ [n]) = some (.file bytes)) :
    fs.stat p = .ok (d ++ [n], .file bytes) := by
  rw [stat, hplace, ok_bind]
  simp only [hget, unslashed]
  rfl

lemma place_of_stat (h : fs.stat p = .ok (l, .file bytes)) : ∃ d n,
    fs.place p = .ok (.named d n) ∧ p.endsInSlash = false ∧ l = d ++ [n] ∧
      fs.get? (d ++ [n]) = some (.file bytes) := by
  have hget := get?_of_stat h
  rw [stat] at h
  obtain ⟨pl, hplace, h⟩ := bind_eq_ok h
  cases pl with
  | itself m => cases h
  | named d n =>
    dsimp only at h
    split at h
    · cases h
    · cases h
    · split at h
      · cases h
      · next unslashed =>
        obtain ⟨rfl, -⟩ := Prod.mk.inj (Except.ok.inj h)
        exact ⟨d, n, hplace, by simpa using unslashed, rfl, hget⟩

/-- A file is read as it was if nothing has been written at its location. -/
lemma ChangedWithin.stat (h : ChangedWithin ls fs fs') (hstat : fs.stat p = .ok (l, .file bytes))
    (hl : fs.locationOf p ∉ ls) : fs'.stat p = .ok (l, .file bytes) := by
  obtain ⟨d, n, hplace, unslashed, rfl, hget⟩ := place_of_stat hstat
  refine stat_of_file (h.place hplace) unslashed ?_
  rw [← location_of_place hplace] at hl
  rw [← fileAt_eq_some_iff, h.files _ hl, fileAt_eq_some_iff, hget]

lemma readBytes_eq_ok_iff :
    fs.readBytes p = .ok bytes ↔ ∃ l, fs.stat p = .ok (l, .file bytes) := by
  rw [readBytes]
  cases hstat : fs.stat p with
  | error f => exact iff_of_false (by rintro ⟨⟩) (by rintro ⟨_, ⟨⟩⟩)
  | ok r =>
    obtain ⟨l, node⟩ := r
    rw [ok_bind]
    cases node <;> simp [eq_comm]

lemma ChangedWithin.readBytes (h : ChangedWithin ls fs fs') (hread : fs.readBytes p = .ok bytes)
    (hl : fs.locationOf p ∉ ls) : fs'.readBytes p = .ok bytes := by
  obtain ⟨l, hstat⟩ := readBytes_eq_ok_iff.mp hread
  exact readBytes_eq_ok_iff.mpr ⟨l, h.stat hstat hl⟩

lemma ChangedWithin.readText (h : ChangedWithin ls fs fs') (hread : fs.readText p = .ok text)
    (hl : fs.locationOf p ∉ ls) : fs'.readText p = .ok text := by
  rw [Filesystem.readText] at hread ⊢
  obtain ⟨bytes, hbytes, hread⟩ := bind_eq_ok hread
  rw [h.readBytes hbytes hl]
  exact hread

/-- The bytes of a text are read as that text. -/
lemma readText_of_readBytes (h : fs.readBytes p = .ok (textBytes text)) :
    fs.readText p = .ok text := by
  have hvalid : String.fromUTF8? ⟨(textBytes text).toArray⟩ = some text := by
    unfold String.fromUTF8?
    rw [textBytes, Array.toArray_toList, String.toUTF8_eq_toByteArray,
      dif_pos text.isValidUTF8]
    rfl
  rw [readText, h, ok_bind]
  simp only [hvalid]

/-! ## Texts in their places -/

/-- The text is at the path, and its sibling is free. -/
structure Settled (p : Path) (text : String) (fs : Filesystem) : Prop where
  target : ∃ d n, fs.place p = .ok (.named d n)
  sibling : ∃ d n, fs.place p.temporary = .ok (.named d n)
  unslashed : p.endsInSlash = false
  siblingUnslashed : p.temporary.endsInSlash = false
  content : fs.get? (fs.locationOf p) = some (.file (textBytes text))
  free : fs.get? (fs.locationOf p.temporary) = none

/-- A path and its temporary sibling lead to different places. -/
lemma locationOf_temporary_ne (fs : Filesystem) (p : Path) :
    fs.locationOf p.temporary ≠ fs.locationOf p := by
  cases hname : p.fileName? with
  | none =>
    obtain ⟨htemporary, habsolute⟩ := Path.steps_temporary_of_nameless hname
    rw [locationOf_concat htemporary (by decide), locationOf, start, start, habsolute]
    simp
  | some n =>
    obtain ⟨forward, init, hsteps⟩ := Path.steps_of_fileName? hname
    obtain ⟨htemporary, habsolute⟩ := Path.steps_temporary hsteps forward
    have forward' : n ++ ".tmp" ≠ ".." := by
      intro heq
      have hlength := congrArg String.length heq
      have hsuffix : ".tmp".length = 4 := rfl
      have hback : "..".length = 2 := rfl
      rw [String.length_append] at hlength
      omega
    rw [locationOf_concat hsteps forward, locationOf_concat htemporary forward', start, start,
      habsolute]
    exact fun heq => Path.append_temporary_ne n
      (List.singleton_inj.mp (List.append_cancel_left heq))

/-- Putting a text at a path settles it there. -/
lemma settled_writeAtomic (h : fs.writeAtomic p text = (.ok (), fs')) : Settled p text fs' := by
  obtain ⟨fs₁, fs₂, _, hwrite, hrename⟩ := writeAtomic_eq_ok_iff.mp h
  have hwritten := stat_write hwrite
  have hchanged := changed_write hwrite
  have hrenamed := changed_rename hwritten hrename
  obtain ⟨d', n', hplace', hslash', _⟩ := write_eq_ok_iff.mp hwrite
  obtain ⟨l, node, d, n, hstat, hplace, hslash, _, hfs'⟩ := rename_eq_ok_iff.mp hrename
  obtain ⟨rfl, rfl⟩ := Prod.mk.inj (Except.ok.inj (hwritten.symm.trans hstat))
  have hne := fs₁.locationOf_temporary_ne p
  rw [location_of_place hplace, hchanged.locationOf_eq] at hfs'
  have htarget : fs₁.locationOf p ≠ [] := by
    rw [← hchanged.locationOf_eq, ← location_of_place hplace]
    exact List.concat_ne_nil _ _
  have hsibling : fs₁.locationOf p.temporary ≠ [] := by
    rw [← location_of_place hplace']
    exact List.concat_ne_nil _ _
  refine ⟨⟨d, n, hrenamed.place hplace⟩, ⟨d', n', hrenamed.place (hchanged.place hplace')⟩, hslash,
    hslash', ?_, ?_⟩
  · rw [hrenamed.locationOf_eq, hchanged.locationOf_eq, hfs', get?_set, if_neg htarget, if_pos rfl]
  · rw [hrenamed.locationOf_eq, hchanged.locationOf_eq, hfs', get?_set_of_ne hne, get?_erase,
      if_neg hsibling, if_pos rfl]

namespace Settled

lemma readBytes (settled : Settled p text fs) : fs.readBytes p = .ok (textBytes text) := by
  obtain ⟨d, n, hplace⟩ := settled.target
  have hcontent := settled.content
  rw [← location_of_place hplace] at hcontent
  exact readBytes_eq_ok_iff.mpr ⟨_, stat_of_file hplace settled.unslashed hcontent⟩

lemma readText (settled : Settled p text fs) : fs.readText p = .ok text :=
  readText_of_readBytes settled.readBytes

/-- A text stays settled while files change elsewhere, if its sibling does not become a
directory. -/
lemma of_changed (settled : Settled p text fs) (h : ChangedWithin ls fs fs')
    (apart : ∀ l ∈ fs.footprint p, l ∉ ls)
    (unmade : fs'.get? (fs.locationOf p.temporary) ≠ some .directory) : Settled p text fs' := by
  have target : fs.locationOf p ∉ ls := apart _ List.mem_cons_self
  have sibling : fs.locationOf p.temporary ∉ ls :=
    apart _ (List.mem_cons_of_mem _ List.mem_cons_self)
  refine ⟨?_, ?_, settled.unslashed, settled.siblingUnslashed, ?_, ?_⟩
  · obtain ⟨d, n, hplace⟩ := settled.target
    exact ⟨d, n, h.place hplace⟩
  · obtain ⟨d, n, hplace⟩ := settled.sibling
    exact ⟨d, n, h.place hplace⟩
  · rw [h.locationOf_eq, ← fileAt_eq_some_iff, h.files _ target, fileAt_eq_some_iff,
      settled.content]
  · have hfile := h.files _ sibling
    rw [fileAt, fileAt, settled.free] at hfile
    rw [h.locationOf_eq]
    cases hget : fs'.get? (fs.locationOf p.temporary) with
    | none => rfl
    | some node =>
      cases node with
      | directory => exact absurd hget unmade
      | file bytes => simp [hget] at hfile

end Settled

/-! ## Directories that are made on the way -/

lemma directory_of_set_file (h : (fs.set l (.file bytes)).get? l' = some .directory) :
    fs.get? l' = some .directory := by
  by_cases heq : l' = l
  · rw [get?_set, if_pos heq] at h
    split at h
    · next hroot => rw [hroot, get?_root]
    · cases h
  · rwa [get?_set_of_ne heq] at h

lemma directory_of_erase (h : (fs.erase l).get? l' = some .directory) :
    fs.get? l' = some .directory := by
  by_cases heq : l' = l
  · rw [get?_erase, if_pos heq] at h
    split at h
    · next hroot => rw [hroot, get?_root]
    · cases h
  · rwa [get?_erase_of_ne heq] at h

/-- Where a text has been put at a path, the directories above it have been made first. -/
lemma made_of_writeAtomic (h : fs.writeAtomic p text = (.ok (), fs')) : ∃ q fs₁,
    p.parent? = some q ∧ Made q fs fs₁ ∧
      ∀ l, fs'.get? l = some .directory → fs₁.get? l = some .directory := by
  obtain ⟨fs₁, fs₂, hmakes, hwrite, hrename⟩ := writeAtomic_eq_ok_iff.mp h
  have made := changed_makeDirectories (directoriesOf p) fs
  rw [hmakes] at made
  have hwritten := stat_write hwrite
  obtain ⟨d', n', hplace', hslash', _, hfs₂⟩ := write_eq_ok_iff.mp hwrite
  obtain ⟨l, node, d, n, hstat, hplace, hslash, _, hfs'⟩ := rename_eq_ok_iff.mp hrename
  obtain ⟨rfl, rfl⟩ := Prod.mk.inj (Except.ok.inj (hwritten.symm.trans hstat))
  obtain ⟨sound, names, _⟩ := place_eq_named_iff.mp hplace
  obtain ⟨init, hsteps, _⟩ := names.steps
  obtain ⟨q, hparent⟩ := Path.exists_parent (Path.ne_nil_of_steps hsteps)
  obtain ⟨_, _, hshort, hthere⟩ := above_temporary names hparent hplace'
  rw [made.way_eq] at hthere
  obtain ⟨fs₁', hmakes', hmade, _⟩ :=
    exists_directories (.refl [] fs) made hparent sound hshort hthere nofun
  obtain rfl := (Prod.mk.inj (hmakes.symm.trans hmakes')).2
  refine ⟨q, fs₁, hparent, hmade, fun x hx => ?_⟩
  rw [hfs'] at hx
  have hx₂ := directory_of_erase (directory_of_set_file hx)
  rw [hfs₂] at hx₂
  exact directory_of_set_file hx₂

lemma directory_of_writeAtomic (h : fs.writeAtomic p text = (.ok (), fs'))
    (hl : fs'.get? l = some .directory) : fs.get? l = some .directory ∨ l ∈ fs.way p := by
  obtain ⟨q, fs₁, hparent, made, hdirectory⟩ := made_of_writeAtomic h
  exact (made.only l (hdirectory l hl)).imp_right fun hway => way_parent_subset hparent hway

/-- Putting a text at a path gives the path the text and takes the sibling away. -/
lemma fileAt_writeAtomic (h : fs.writeAtomic p text = (.ok (), fs')) (l : Location) :
    fs'.fileAt l = if l = fs.locationOf p then some (textBytes text)
      else if l = fs.locationOf p.temporary then none else fs.fileAt l := by
  have settled := settled_writeAtomic h
  have hchanged := fs.changed_writeAtomic p text
  rw [h] at hchanged
  have hcontent := settled.content
  have hfree := settled.free
  rw [hchanged.locationOf_eq] at hcontent hfree
  split
  · next heq => rw [heq, fileAt_eq_some_iff, hcontent]
  · next htarget =>
    split
    · next heq => rw [heq, fileAt, hfree]
    · next hsibling =>
      exact hchanged.files l (by simpa [footprint] using ⟨htarget, hsibling⟩)

/-! ## The same text again -/

/-- The same files and directories. -/
structure Alike (fs fs' : Filesystem) : Prop where
  current : fs'.current = fs.current
  nodes : ∀ l, fs'.get? l = fs.get? l

lemma alike_of_changed (h : ChangedWithin [] fs fs') (h' : ChangedWithin [] fs' fs) :
    Alike fs fs' := by
  refine ⟨h.current, fun l => ?_⟩
  have hfiles := h.files l List.not_mem_nil
  have hdirectories : fs'.get? l = some .directory ↔ fs.get? l = some .directory :=
    ⟨h'.directories l, h.directories l⟩
  cases hget : fs.get? l with
  | none =>
    rw [fileAt, fileAt, hget] at hfiles
    rw [hget] at hdirectories
    cases hget' : fs'.get? l with
    | none => rfl
    | some node =>
      cases node with
      | directory => simp [hget'] at hdirectories
      | file bytes => simp [hget'] at hfiles
  | some node =>
    cases node with
    | directory => exact hdirectories.mpr hget
    | file bytes => rw [← fileAt_eq_some_iff, hfiles, fileAt_eq_some_iff, hget]

lemma Alike.changed (h : Alike fs fs') : ChangedWithin [] fs fs' :=
  ⟨h.current, fun l _ => fileAt_congr (h.nodes l), fun l hl => (h.nodes l).trans hl⟩

lemma Alike.trans {fs'' : Filesystem} (h : Alike fs fs') (h' : Alike fs' fs'') : Alike fs fs'' :=
  ⟨h'.current.trans h.current, fun l => (h'.nodes l).trans (h.nodes l)⟩

/-- Where a text is settled, any text can be put. -/
lemma Settled.replace (settled : Settled p text fs) (text' : String) :
    ∃ fs', fs.writeAtomic p text' = (.ok (), fs') := by
  obtain ⟨d, n, hplace⟩ := settled.target
  obtain ⟨d', n', hplace'⟩ := settled.sibling
  obtain ⟨sound, names, _⟩ := place_eq_named_iff.mp hplace
  obtain ⟨init, hsteps, _⟩ := names.steps
  obtain ⟨q, hparent⟩ := Path.exists_parent (Path.ne_nil_of_steps hsteps)
  obtain ⟨_, _, hshort, hthere⟩ := above_temporary names hparent hplace'
  obtain ⟨fs₁, hmakes, made, back⟩ :=
    exists_directories (.refl [] fs) (.refl [] fs) hparent sound hshort hthere nofun
  have alike := alike_of_changed made.changed back
  have target := (location_of_place hplace).symm
  have sibling := (location_of_place hplace').symm
  have hne := fs.locationOf_temporary_ne p
  have hcontent := (alike.nodes _).trans settled.content
  have hfree := (alike.nodes _).trans settled.free
  rw [target] at hcontent
  rw [sibling] at hfree
  rw [target, sibling] at hne
  have hwrite : fs₁.write p.temporary (textBytes text') =
      .ok (fs₁.set (d' ++ [n']) (.file (textBytes text'))) :=
    write_eq_ok_iff.mpr ⟨d', n', alike.changed.place hplace', settled.siblingUnslashed,
      by rw [hfree]; nofun, rfl⟩
  have hchanged := changed_write hwrite
  have hrename := rename_eq_ok_iff.mpr ⟨_, _, d, n, stat_write hwrite,
    hchanged.place (alike.changed.place hplace), settled.unslashed,
    by rw [get?_set_of_ne hne.symm, hcontent]; nofun, rfl⟩
  exact ⟨_, writeAtomic_eq_ok_iff.mpr ⟨fs₁, _, hmakes, hwrite, hrename⟩⟩

/-- The directories on the way to a settled text are there. -/
lemma Settled.directory_of_mem_way (settled : Settled p text fs) (hl : l ∈ fs.way p)
    (hne : l ≠ fs.locationOf p) : fs.get? l = some .directory := by
  obtain ⟨d, n, hplace⟩ := settled.target
  obtain ⟨_, names, hdescend⟩ := place_eq_named_iff.mp hplace
  obtain ⟨init, hsteps, _⟩ := names.steps
  rw [way_concat hsteps, if_neg names.forward, List.mem_append, List.mem_singleton] at hl
  have hthere := ((descend_eq_ok_iff (busy_dropLast p)).mp hdescend).2.2
  rw [hsteps, List.dropLast_concat] at hthere
  exact hthere l (hl.resolve_right hne)

/-- A text that is settled can be put at its path again, and that changes nothing. -/
lemma Settled.again (settled : Settled p text fs) :
    ∃ fs', fs.writeAtomic p text = (.ok (), fs') ∧ Alike fs fs' := by
  obtain ⟨fs', hput⟩ := settled.replace text
  have hchanged := fs.changed_writeAtomic p text
  rw [hput] at hchanged
  -- the sibling comes and goes, and the text takes the place of the same text
  have files : ∀ l, fs'.fileAt l = fs.fileAt l := by
    intro l
    rw [fileAt_writeAtomic hput]
    split
    · next htarget => rw [htarget, eq_comm, fileAt_eq_some_iff, settled.content]
    · split
      · next hsibling => rw [hsibling, fileAt, settled.free]
      · rfl
  have back : ∀ l, fs'.get? l = some .directory → fs.get? l = some .directory := by
    intro l hl
    refine (directory_of_writeAtomic hput hl).elim id fun hway =>
      settled.directory_of_mem_way hway ?_
    rintro rfl
    have hcontent := (settled_writeAtomic hput).content
    rw [hchanged.locationOf_eq, hl] at hcontent
    cases hcontent
  exact ⟨fs', hput, alike_of_changed ⟨hchanged.current, fun l _ => files l, hchanged.directories⟩
    ⟨hchanged.current.symm, fun l _ => (files l).symm, back⟩⟩

lemma Settled.of_alike (settled : Settled p text fs) (h : Alike fs fs') : Settled p text fs' := by
  refine settled.of_changed h.changed (fun _ _ => List.not_mem_nil) ?_
  rw [h.nodes, settled.free]
  nofun

/-! ## Texts one after the other -/

/-- Puts texts at paths, up to the first one that cannot be put. -/
def writeAll : List (Path × String) → Filesystem → Except FileError Unit × Filesystem
  | [], fs => (.ok (), fs)
  | (p, text) :: rest, fs =>
    match fs.writeAtomic p text with
    | (.error e, fs) => (.error e, fs)
    | (.ok (), fs) => writeAll rest fs

variable {ws : List (Path × String)}

lemma writeAll_cons_eq_ok_iff : writeAll ((p, text) :: ws) fs = (.ok (), fs') ↔
    ∃ fs₁, fs.writeAtomic p text = (.ok (), fs₁) ∧ writeAll ws fs₁ = (.ok (), fs') := by
  rw [writeAll]
  cases hput : fs.writeAtomic p text with
  | mk result fs₁ => cases result <;> simp

lemma writeAll_append_eq_ok_iff {ws' : List (Path × String)} :
    writeAll (ws ++ ws') fs = (.ok (), fs') ↔
      ∃ fs₁, writeAll ws fs = (.ok (), fs₁) ∧ writeAll ws' fs₁ = (.ok (), fs') := by
  induction ws generalizing fs with
  | nil => simp [writeAll]
  | cons w ws ih =>
    obtain ⟨p, text⟩ := w
    simp only [List.cons_append, writeAll_cons_eq_ok_iff, ih]
    constructor
    · rintro ⟨fs₁, hput, fs₂, hrest, hmore⟩
      exact ⟨fs₂, ⟨fs₁, hput, hrest⟩, hmore⟩
    · rintro ⟨fs₂, ⟨fs₁, hput, hrest⟩, hmore⟩
      exact ⟨fs₁, hput, fs₂, hrest, hmore⟩

lemma ChangedWithin.footprints_eq (h : ChangedWithin ls fs fs') (ps : List Path) :
    ps.flatMap fs'.footprint = ps.flatMap fs.footprint := by
  congr 1
  funext p
  exact h.footprint_eq p

theorem changed_writeAll (ws : List (Path × String)) (fs : Filesystem) :
    ChangedWithin ((ws.map Prod.fst).flatMap fs.footprint) fs (writeAll ws fs).2 := by
  induction ws generalizing fs with
  | nil => exact .refl _ _
  | cons w ws ih =>
    obtain ⟨p, text⟩ := w
    have hfirst := fs.changed_writeAtomic p text
    rw [writeAll, List.map_cons, List.flatMap_cons]
    split
    · next e fs₁ hfailed =>
      rw [hfailed] at hfirst
      exact hfirst.mono (List.subset_append_left _ _)
    · next fs₁ hdone =>
      rw [hdone] at hfirst
      have hrest := ih fs₁
      rw [hfirst.footprints_eq] at hrest
      exact (hfirst.mono (List.subset_append_left _ _)).trans
        (hrest.mono (List.subset_append_right _ _))

/-- What is at a location after texts have been put at paths: what was put there last, nothing
where there has been a sibling since, and otherwise what was there before. -/
def contentAfter (fs : Filesystem) (l : Location) (ws : List (Path × String)) :
    Option (List UInt8) :=
  ws.foldl (fun content w =>
    if l = fs.locationOf w.1 then some (textBytes w.2)
    else if l = fs.locationOf w.1.temporary then none else content) (fs.fileAt l)

theorem fileAt_writeAll (h : writeAll ws fs = (.ok (), fs')) (l : Location) :
    fs'.fileAt l = fs.contentAfter l ws := by
  induction ws generalizing fs with
  | nil =>
    obtain rfl := (Prod.mk.inj h).2
    rfl
  | cons w ws ih =>
    obtain ⟨p, text⟩ := w
    obtain ⟨fs₁, hput, hrest⟩ := writeAll_cons_eq_ok_iff.mp h
    have hchanged := fs.changed_writeAtomic p text
    rw [hput] at hchanged
    rw [ih hrest, contentAfter, contentAfter, List.foldl_cons, fileAt_writeAtomic hput]
    simp only [hchanged.locationOf_eq]

/-- The paths lead to different places, and so do their siblings, none of which is on the way to
one of the paths. -/
structure Separate (fs : Filesystem) (ps : List Path) : Prop where
  distinct : (ps.flatMap fs.footprint).Nodup
  aside : ∀ p ∈ ps, ∀ q ∈ ps, fs.locationOf p.temporary ∉ fs.way q

lemma Separate.sublist {ps qs : List Path} (separate : Separate fs qs) (h : ps.Sublist qs) :
    Separate fs ps where
  distinct := (h.flatMap fs.footprint).nodup separate.distinct
  aside p hp q hq := separate.aside p (h.subset hp) q (h.subset hq)

lemma Separate.of_changed {ps : List Path} (separate : Separate fs ps)
    (h : ChangedWithin ls fs fs') : Separate fs' ps where
  distinct := by
    rw [h.footprints_eq]
    exact separate.distinct
  aside p hp q hq := by
    rw [h.locationOf_eq, h.way_eq]
    exact separate.aside p hp q hq

lemma directory_of_writeAll (h : writeAll ws fs = (.ok (), fs'))
    (hl : fs'.get? l = some .directory) :
    fs.get? l = some .directory ∨ ∃ w ∈ ws, l ∈ fs.way w.1 := by
  induction ws generalizing fs with
  | nil =>
    obtain rfl := (Prod.mk.inj h).2
    exact Or.inl hl
  | cons w ws ih =>
    obtain ⟨p, text⟩ := w
    obtain ⟨fs₁, hput, hrest⟩ := writeAll_cons_eq_ok_iff.mp h
    have hchanged := fs.changed_writeAtomic p text
    rw [hput] at hchanged
    rcases ih hrest with hthere | ⟨w, hw, hway⟩
    · exact (directory_of_writeAtomic hput hthere).imp_right fun hway =>
        ⟨(p, text), List.mem_cons_self, hway⟩
    · rw [hchanged.way_eq] at hway
      exact Or.inr ⟨w, List.mem_cons_of_mem _ hw, hway⟩

/-- Texts that have been put at separate paths are all settled. -/
theorem settled_writeAll (separate : Separate fs (ws.map Prod.fst))
    (h : writeAll ws fs = (.ok (), fs')) : ∀ w ∈ ws, Settled w.1 w.2 fs' := by
  induction ws generalizing fs with
  | nil => exact List.forall_mem_nil _
  | cons w ws ih =>
    obtain ⟨p, text⟩ := w
    obtain ⟨fs₁, hput, hrest⟩ := writeAll_cons_eq_ok_iff.mp h
    have hchanged := fs.changed_writeAtomic p text
    rw [hput] at hchanged
    have settled := settled_writeAtomic hput
    rw [List.map_cons] at separate
    rw [List.forall_mem_cons]
    have separate₁ := (separate.sublist (List.sublist_cons_self _ _)).of_changed hchanged
    refine ⟨?_, ih separate₁ hrest⟩
    have hlater := changed_writeAll ws fs₁
    rw [hrest] at hlater
    -- the texts that follow are written elsewhere, and no directory that they need is the sibling
    refine settled.of_changed hlater (fun l hl hmem => ?_) fun hmade => ?_
    · have hdistinct := separate.distinct
      rw [List.flatMap_cons, List.nodup_append] at hdistinct
      rw [hchanged.footprint_eq] at hl
      rw [hchanged.footprints_eq] at hmem
      exact hdistinct.2.2 l hl l hmem rfl
    · rcases directory_of_writeAll hrest hmade with hthere | ⟨w, hw, hway⟩
      · rw [settled.free] at hthere
        cases hthere
      · rw [hchanged.locationOf_eq, hchanged.way_eq] at hway
        exact separate.aside p List.mem_cons_self w.1
          (List.mem_cons_of_mem p (List.mem_map.mpr ⟨w, hw, rfl⟩)) hway

/-- Texts that are settled can be put at their paths again, and that changes nothing. -/
theorem writeAll_again (settled : ∀ w ∈ ws, Settled w.1 w.2 fs) :
    ∃ fs', writeAll ws fs = (.ok (), fs') ∧ Alike fs fs' := by
  induction ws generalizing fs with
  | nil => exact ⟨fs, rfl, rfl, fun _ => rfl⟩
  | cons w ws ih =>
    obtain ⟨p, text⟩ := w
    rw [List.forall_mem_cons] at settled
    obtain ⟨fs₁, hput, alike⟩ := settled.1.again
    obtain ⟨fs', hrest, alike'⟩ := ih fun w hw => (settled.2 w hw).of_alike alike
    exact ⟨fs', writeAll_cons_eq_ok_iff.mpr ⟨fs₁, hput, hrest⟩, alike.trans alike'⟩

end SchemaStack.Filesystem
