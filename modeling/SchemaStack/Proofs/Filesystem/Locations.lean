import SchemaStack.Filesystem.Basic
import SchemaStack.Proofs.Fallible
import SchemaStack.Proofs.Filesystem.Paths
/-!
# Where paths lead

There are no links, so where a path leads if it leads anywhere can be told from its steps. It leads
there if the directories that it names on its way exist.
-/

namespace SchemaStack.Filesystem

open SchemaStack.Path (isIdle)

variable (fs : Filesystem)

/-- Where a path starts. -/
def start (p : Path) : Location := if p.isAbsolute then [] else fs.current

/-- Where a step leads. -/
def go (l : Location) (s : String) : Location := if s = ".." then l.dropLast else l ++ [s]

/-- Where a path leads, whatever there is. -/
def locationOf (p : Path) : Location := p.steps.foldl go (fs.start p)

/-- The locations that steps name on their way. -/
def route (l : Location) : List String → List Location
  | [] => []
  | s :: ss => if s = ".." then route l.dropLast ss else (l ++ [s]) :: route (l ++ [s]) ss

/-- The locations that a path names on its way. -/
def way (p : Path) : List Location := route (fs.start p) p.steps

/-- The content of the file at a location. -/
def fileAt (l : Location) : Option (List UInt8) :=
  match fs.get? l with
  | some (.file bytes) => some bytes
  | _ => none

variable {fs}

lemma fileAt_eq_some_iff {l : Location} {bytes : List UInt8} :
    fs.fileAt l = some bytes ↔ fs.get? l = some (.file bytes) := by
  rw [fileAt]
  split
  · rename_i b h
    rw [h]
    simp
  · rename_i h
    exact iff_of_false (by simp) fun heq => h bytes heq

lemma fileAt_of_directory {l : Location} (h : fs.get? l = some .directory) :
    fs.fileAt l = none := by
  rw [fileAt, h]

lemma route_append (l : Location) (ss ts : List String) :
    route l (ss ++ ts) = route l ss ++ route (ss.foldl go l) ts := by
  induction ss generalizing l with
  | nil => rfl
  | cons s ss ih =>
    rw [List.cons_append, route, route, List.foldl_cons, ih, ih, go]
    split <;> rfl

/-! ## Going down -/

section Descending

variable {l l' : Location} {s : String} {ss : List String}

/-- Goes from directory to directory. -/
def descend (fs : Filesystem) (l : Location) (ss : List String) : Except FileFault Location :=
  ss.foldlM fs.enter l

lemma descend_cons : fs.descend l (s :: ss) = fs.enter l s >>= fun l => fs.descend l ss :=
  List.foldlM_cons

lemma enter_dot (l : Location) : fs.enter l "." = .ok l := by rw [enter, if_pos rfl]

/-- A dot stays where it is. -/
lemma descend_filter (l : Location) (ss : List String) :
    fs.descend l (ss.filter (· ≠ ".")) = fs.descend l ss := by
  induction ss generalizing l with
  | nil => rfl
  | cons s ss ih =>
    by_cases h : s = "."
    · subst h
      rw [List.filter_cons_of_neg (by simp), descend_cons, enter_dot, ih]
      rfl
    · rw [List.filter_cons_of_pos (by simpa using h), descend_cons, descend_cons]
      exact congrArg (fs.enter l s >>= ·) (funext ih)

/-- Names that are not too long. -/
def Short (ss : List String) : Prop := ∀ s ∈ ss, s ≠ ".." → s.utf8ByteSize ≤ maxNameBytes

lemma enter_eq_ok_iff (busy : isIdle s = false) :
    fs.enter l s = .ok l' ↔ l' = go l s ∧
      (s ≠ ".." → s.utf8ByteSize ≤ maxNameBytes ∧ fs.get? (l ++ [s]) = some .directory) := by
  have hdot : s ≠ "." := by
    rintro rfl
    cases busy
  rw [enter, if_neg hdot, go]
  by_cases hback : s = ".."
  · rw [if_pos hback, if_pos hback]
    simp [hback, eq_comm]
  · rw [if_neg hback, if_neg hback]
    by_cases hlong : maxNameBytes < s.utf8ByteSize
    · rw [if_pos hlong]
      exact iff_of_false (by simp) fun h => absurd (h.2 hback).1 (by omega)
    · rw [if_neg hlong]
      have hshort : s.utf8ByteSize ≤ maxNameBytes := by omega
      cases hget : fs.get? (l ++ [s]) with
      | none => simp [hback]
      | some node =>
        cases node with
        | file bytes => simp [hback]
        | directory => simp [hback, hshort, eq_comm]

/-- Steps can be taken if their names are short and the directories on the way are there. -/
lemma descend_eq_ok_iff (busy : ∀ s ∈ ss, isIdle s = false) :
    fs.descend l ss = .ok l' ↔
      l' = ss.foldl go l ∧ Short ss ∧ ∀ x ∈ route l ss, fs.get? x = some .directory := by
  induction ss generalizing l with
  | nil =>
    change Except.ok l = .ok l' ↔ _
    simp [Short, route, eq_comm]
  | cons s ss ih =>
    rw [List.forall_mem_cons] at busy
    rw [descend_cons, List.foldl_cons, Short, List.forall_mem_cons, route]
    constructor
    · intro h
      obtain ⟨m, hm, h⟩ := bind_eq_ok h
      obtain ⟨rfl, hstep⟩ := (enter_eq_ok_iff busy.1).mp hm
      obtain ⟨hl', hshort, hway⟩ := (ih busy.2).mp h
      refine ⟨hl', ⟨fun hback => (hstep hback).1, hshort⟩, ?_⟩
      rw [go] at hway
      split
      · rename_i hback
        rwa [if_pos hback] at hway
      · rename_i hback
        rw [if_neg hback] at hway
        exact List.forall_mem_cons.mpr ⟨(hstep hback).2, hway⟩
    · rintro ⟨hl', ⟨hs, hshort⟩, hway⟩
      have hstep : s ≠ ".." → fs.get? (l ++ [s]) = some .directory := by
        intro hback
        rw [if_neg hback] at hway
        exact hway _ List.mem_cons_self
      have hrest : ∀ x ∈ route (go l s) ss, fs.get? x = some .directory := by
        intro x hx
        rw [go] at hx
        split at hx
        · rename_i hback
          rw [if_pos hback] at hway
          exact hway x hx
        · rename_i hback
          rw [if_neg hback] at hway
          exact hway x (List.mem_cons_of_mem _ hx)
      have henter : fs.enter l s = .ok (go l s) :=
        (enter_eq_ok_iff busy.1).mpr ⟨rfl, fun hback => ⟨hs hback, hstep hback⟩⟩
      rw [henter]
      exact (ih busy.2).mpr ⟨hl', hshort, hrest⟩

/-- Where no file is in the way, all that can go wrong is that something is missing. -/
lemma eq_notFound_of_descend (busy : ∀ s ∈ ss, isIdle s = false) (short : Short ss)
    (clear : ∀ x ∈ route l ss, fs.fileAt x = none) {f : FileFault}
    (h : fs.descend l ss = .error f) : f = .notFound := by
  induction ss generalizing l with
  | nil => cases h
  | cons s ss ih =>
    rw [List.forall_mem_cons] at busy
    rw [Short, List.forall_mem_cons] at short
    rw [descend_cons] at h
    have hdot : s ≠ "." := by
      rintro rfl
      cases busy.1
    rw [route] at clear
    by_cases hback : s = ".."
    · rw [if_pos hback] at clear
      rw [enter, if_neg hdot, if_pos hback] at h
      exact ih busy.2 short.2 clear h
    · rw [if_neg hback, List.forall_mem_cons] at clear
      have hshort : ¬ maxNameBytes < s.utf8ByteSize := by
        have := short.1 hback
        omega
      rw [enter, if_neg hdot, if_neg hback, if_neg hshort] at h
      cases hget : fs.get? (l ++ [s]) with
      | none =>
        rw [hget] at h
        exact (Except.error.inj h).symm
      | some node =>
        rw [hget] at h
        cases node with
        | file bytes =>
          have hfile := fileAt_eq_some_iff.mpr hget
          rw [clear.1] at hfile
          cases hfile
        | directory => exact ih busy.2 short.2 clear.2 h

end Descending

/-! ## Walking -/

section Walking

variable {l d : Location} {n : String} {ws : List String}

/-- The directory at a place. -/
def settle (fs : Filesystem) : Place → Except FileFault Location
  | .itself l => .ok l
  | .named d n =>
    match fs.get? (d ++ [n]) with
    | none => .error .notFound
    | some (.file _) => .error .notDirectory
    | some .directory => .ok (d ++ [n])

lemma walk_cons_cons (l : Location) (s s' : String) (ws : List String) :
    fs.walk l (s :: s' :: ws) = fs.enter l s >>= fun l => fs.walk l (s' :: ws) := rfl

/-- Going down a path is walking it up to the directory at its end. -/
lemma walk_settle (l : Location) (ws : List String) :
    (fs.walk l ws >>= fs.settle) = fs.descend l ws := by
  induction ws generalizing l with
  | nil => rfl
  | cons s ws ih =>
    cases ws with
    | nil =>
      have hsingle : fs.descend l [s] = fs.enter l s := by
        rw [descend_cons]
        exact bind_pure (fs.enter l s)
      rw [hsingle, walk, enter]
      split
      · rfl
      · split
        · rfl
        · split <;> rfl
    | cons s' ws =>
      rw [walk_cons_cons, bind_assoc, descend_cons]
      exact congrArg (fs.enter l s >>= ·) (funext ih)

/-- One segment leads to a name, unless it is made of dots or too long. -/
lemma walk_single_eq_named_iff {s : String} : fs.walk l [s] = .ok (.named d n) ↔
    s = n ∧ n ≠ "." ∧ n ≠ ".." ∧ n.utf8ByteSize ≤ maxNameBytes ∧ l = d := by
  rw [walk]
  by_cases hdot : s = "."
  · rw [if_pos hdot]
    exact iff_of_false (by simp) fun h => h.2.1 (h.1.symm.trans hdot)
  by_cases hback : s = ".."
  · rw [if_neg hdot, if_pos hback]
    exact iff_of_false (by simp) fun h => h.2.2.1 (h.1.symm.trans hback)
  rw [if_neg hdot, if_neg hback]
  by_cases hlong : maxNameBytes < s.utf8ByteSize
  · rw [if_pos hlong]
    refine iff_of_false (by simp) ?_
    rintro ⟨rfl, _, _, hshort, _⟩
    omega
  · rw [if_neg hlong]
    simp only [Except.ok.injEq, Place.named.injEq]
    constructor
    · rintro ⟨rfl, rfl⟩
      exact ⟨rfl, hdot, hback, by omega, rfl⟩
    · rintro ⟨rfl, _, _, _, rfl⟩
      exact ⟨rfl, rfl⟩

lemma walk_eq_named_iff : fs.walk l ws = .ok (.named d n) ↔
    ∃ init, ws = init ++ [n] ∧ n ≠ "." ∧ n ≠ ".." ∧ n.utf8ByteSize ≤ maxNameBytes ∧
      fs.descend l init = .ok d := by
  induction ws generalizing l with
  | nil =>
    refine iff_of_false (by rintro ⟨⟩) ?_
    rintro ⟨init, hinit, _⟩
    simp at hinit
  | cons s ws ih =>
    cases ws with
    | nil =>
      rw [walk_single_eq_named_iff]
      constructor
      · rintro ⟨rfl, hdot, hback, hshort, rfl⟩
        exact ⟨[], rfl, hdot, hback, hshort, rfl⟩
      · rintro ⟨init, hinit, hdot, hback, hshort, hd⟩
        cases init with
        | nil => exact ⟨List.singleton_inj.mp hinit, hdot, hback, hshort, Except.ok.inj hd⟩
        | cons t ts => simp at hinit
    | cons s' ws =>
      rw [walk_cons_cons]
      constructor
      · intro h
        obtain ⟨m, hm, h⟩ := bind_eq_ok h
        obtain ⟨init, hinit, hdot, hback, hshort, hd⟩ := ih.mp h
        refine ⟨s :: init, by rw [hinit, List.cons_append], hdot, hback, hshort, ?_⟩
        rw [descend_cons, hm]
        exact hd
      · rintro ⟨init, hinit, hdot, hback, hshort, hd⟩
        cases init with
        | nil => simp at hinit
        | cons t init =>
          obtain ⟨rfl, htail⟩ := List.cons.inj hinit
          rw [descend_cons] at hd
          obtain ⟨m, hm, hd⟩ := bind_eq_ok hd
          rw [hm]
          exact ih.mpr ⟨init, htail, hdot, hback, hshort, hd⟩

end Walking

/-! ## Places -/

section Places

variable {p : Path} {d : Location} {n : String}

/-- A text that can be passed on as a path. -/
structure Sound (p : Path) : Prop where
  plain : '\x00' ∉ p.text.toList
  short : p.text.utf8ByteSize ≤ maxPathBytes
  nonempty : p.text ≠ ""

/-- The path ends with a name. -/
structure Names (p : Path) (n : String) : Prop where
  last : p.names.getLast? = some n
  still : n ≠ "."
  forward : n ≠ ".."
  short : n.utf8ByteSize ≤ maxNameBytes

lemma place_of_sound (sound : Sound p) : fs.place p = fs.walk (fs.start p) p.names := by
  have hplain : ¬ p.text.toList.contains '\x00' = true := by simpa using sound.plain
  have hshort : ¬ maxPathBytes < p.text.utf8ByteSize := by
    have := sound.short
    omega
  have hsome : ¬ p.text.isEmpty = true := by simpa using sound.nonempty
  rw [place, if_neg hplain, if_neg hshort, if_neg hsome]
  rfl

lemma sound_of_place {pl : Place} (h : fs.place p = .ok pl) : Sound p := by
  rw [place] at h
  split at h
  · cases h
  · rename_i hplain
    split at h
    · cases h
    · rename_i hshort
      split at h
      · cases h
      · rename_i hsome
        exact ⟨by simpa using hplain, by omega, by simpa using hsome⟩

lemma busy_steps (p : Path) : ∀ s ∈ p.steps, isIdle s = false := by
  intro s hs
  simpa using (List.mem_filter.mp hs).2

lemma Names.steps (names : Names p n) : ∃ init, p.steps = init ++ [n] ∧
    ∃ front, p.names = front ++ [n] ∧ front.filter (· ≠ ".") = init := by
  obtain ⟨front, hfront⟩ := List.getLast?_eq_some_iff.mp names.last
  refine ⟨front.filter (· ≠ "."), ?_, front, hfront, rfl⟩
  rw [← Path.filter_names, hfront, List.filter_append]
  simp [names.still]

lemma place_eq_named_iff : fs.place p = .ok (.named d n) ↔
    Sound p ∧ Names p n ∧ fs.descend (fs.start p) p.steps.dropLast = .ok d := by
  constructor
  · intro h
    have sound := sound_of_place h
    rw [place_of_sound sound] at h
    obtain ⟨front, hfront, hdot, hback, hshort, hd⟩ := walk_eq_named_iff.mp h
    have names : Names p n := ⟨by rw [hfront, List.getLast?_concat], hdot, hback, hshort⟩
    refine ⟨sound, names, ?_⟩
    obtain ⟨init, hsteps, front', hfront', rfl⟩ := names.steps
    obtain rfl : front = front' := (List.append_inj' (hfront.symm.trans hfront') rfl).1
    rw [hsteps, List.dropLast_concat, descend_filter]
    exact hd
  · rintro ⟨sound, names, hd⟩
    obtain ⟨init, hsteps, front, hfront, rfl⟩ := names.steps
    rw [hsteps, List.dropLast_concat, descend_filter] at hd
    rw [place_of_sound sound]
    exact walk_eq_named_iff.mpr ⟨front, hfront, names.still, names.forward, names.short, hd⟩

lemma busy_dropLast (p : Path) : ∀ s ∈ p.steps.dropLast, isIdle s = false :=
  fun s hs => busy_steps p s (List.dropLast_subset p.steps hs)

lemma location_of_place (h : fs.place p = .ok (.named d n)) : d ++ [n] = fs.locationOf p := by
  obtain ⟨_, names, hd⟩ := place_eq_named_iff.mp h
  obtain ⟨init, hsteps, _⟩ := names.steps
  obtain ⟨hd, _⟩ := (descend_eq_ok_iff (busy_dropLast p)).mp hd
  rw [hsteps, List.dropLast_concat] at hd
  rw [locationOf, hsteps, List.foldl_append, ← hd, List.foldl_cons, List.foldl_nil, go,
    if_neg names.forward]

lemma isDirectory_of_itself {l : Location} (h : fs.place p = .ok (.itself l)) :
    fs.isDirectory p = true := by
  rw [isDirectory, stat, h]
  rfl

lemma isDirectory_of_named (h : fs.place p = .ok (.named d n)) :
    fs.isDirectory p = true ↔ fs.get? (d ++ [n]) = some .directory := by
  rw [isDirectory, stat, h, ok_bind]
  cases hget : fs.get? (d ++ [n]) with
  | none => simp [hget, Except.toOption]
  | some node =>
    cases node with
    | directory => simp [hget, Except.toOption]
    | file bytes =>
      simp only [hget, Option.some.injEq, reduceCtorEq, iff_false]
      split <;> simp [Except.toOption]

lemma settle_named : (∃ l, fs.settle (.named d n) = .ok l) ↔
    fs.get? (d ++ [n]) = some .directory := by
  rw [settle]
  cases hget : fs.get? (d ++ [n]) with
  | none => simp
  | some node => cases node <;> simp

/-- A path leads to a directory if it can be gone down. -/
lemma isDirectory_iff : fs.isDirectory p = true ↔
    Sound p ∧ ∃ l, fs.descend (fs.start p) p.steps = .ok l := by
  rw [← Path.filter_names, descend_filter, ← walk_settle]
  cases hplace : fs.place p with
  | error f =>
    have hnot : fs.isDirectory p = false := by
      rw [isDirectory, stat, hplace]
      rfl
    rw [hnot]
    refine iff_of_false Bool.false_ne_true ?_
    rintro ⟨sound, l, h⟩
    rw [← place_of_sound sound, hplace] at h
    cases h
  | ok pl =>
    have sound := sound_of_place hplace
    rw [← place_of_sound sound, hplace, ok_bind, and_iff_right sound]
    cases pl with
    | itself l => exact iff_of_true (isDirectory_of_itself hplace) ⟨l, rfl⟩
    | named d n => rw [isDirectory_of_named hplace, settle_named]

end Places

end SchemaStack.Filesystem
