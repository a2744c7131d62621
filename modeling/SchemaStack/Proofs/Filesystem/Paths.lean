import SchemaStack.Filesystem.Path
import Mathlib.Data.List.DropRight
import Mathlib.Tactic.Common
/-!
# Steps of a path

Of the segments of a path the idle ones lead nowhere, and the others are its steps. The parent of a
path leaves out the last step, and its temporary sibling changes the name that the last step is.
-/

namespace SchemaStack.Path

/-! ## Segments -/

lemma splitAt_eq_splitOn (sep : Char) (cs : List Char) : splitAt sep cs = cs.splitOn sep := by
  induction cs with
  | nil => rfl
  | cons c cs ih =>
    rw [splitAt, ih, List.splitOn, List.splitOn, List.splitOnP_cons_eq_if_modifyHead]
    by_cases h : c = sep
    · rw [if_pos h, if_pos (beq_iff_eq.mpr h)]
    · rw [if_neg h, if_neg (by simpa using h)]
      cases hrest : cs.splitOnP (· == sep) with
      | nil => exact absurd hrest (List.splitOnP_ne_nil _ _)
      | cons w ws => rfl

lemma notMem_of_mem_splitAt {sep : Char} {cs w : List Char} (h : w ∈ splitAt sep cs) :
    sep ∉ w := by
  induction cs generalizing w with
  | nil =>
    obtain rfl := List.mem_singleton.mp h
    exact List.not_mem_nil
  | cons c cs ih =>
    rw [splitAt] at h
    split at h
    · rcases List.mem_cons.mp h with rfl | h
      · exact List.not_mem_nil
      · exact ih h
    · rename_i hne
      split at h
      · rename_i hnone
        obtain rfl := List.mem_singleton.mp h
        simpa using Ne.symm hne
      · rename_i v vs hrest
        rcases List.mem_cons.mp h with rfl | h
        · have hv : sep ∉ v := ih (hrest ▸ List.mem_cons_self)
          exact fun hmem => (List.mem_cons.mp hmem).elim (Ne.symm hne) hv
        · exact ih (hrest ▸ List.mem_cons_of_mem v h)

/-- A text that can be a segment. -/
def SlashFree (s : String) : Prop := '/' ∉ s.toList

lemma slashFree_of_mem_segments {p : Path} {s : String} (h : s ∈ p.segments) : SlashFree s := by
  obtain ⟨w, hw, rfl⟩ := List.mem_map.mp h
  rw [SlashFree, String.toList_ofList]
  exact notMem_of_mem_splitAt hw

lemma segments_eq (p : Path) : p.segments = (p.text.toList.splitOn '/').map String.ofList := by
  rw [segments, splitAt_eq_splitOn]

lemma segments_ne_nil (p : Path) : p.segments ≠ [] := by
  rw [segments_eq]
  exact mt List.map_eq_nil_iff.mp (List.splitOnP_ne_nil _ _)

lemma toList_ofSegments (ss : List String) :
    (ofSegments ss).text.toList = ['/'].intercalate (ss.map String.toList) :=
  String.toList_intercalate

lemma segments_ofSegments {ss : List String} (free : ∀ s ∈ ss, SlashFree s) (hne : ss ≠ []) :
    (ofSegments ss).segments = ss := by
  have hfree : ∀ w ∈ ss.map String.toList, '/' ∉ w := by
    intro w hw
    obtain ⟨s, hs, rfl⟩ := List.mem_map.mp hw
    exact free s hs
  rw [segments_eq, toList_ofSegments,
    List.splitOn_intercalate '/' hfree (mt List.map_eq_nil_iff.mp hne), List.map_map]
  refine (List.map_congr_left fun s _ => ?_).trans (List.map_id ss)
  exact String.ofList_toList

lemma ofSegments_segments (p : Path) : ofSegments p.segments = p := by
  obtain ⟨text⟩ := p
  refine congrArg Path.mk (String.toList_inj.mp ?_)
  change (ofSegments (Path.mk text).segments).text.toList = text.toList
  rw [toList_ofSegments, segments_eq, List.map_map]
  have hid : String.toList ∘ String.ofList = id := funext fun cs => String.toList_ofList
  rw [hid, List.map_id, List.intercalate_splitOn]

/-- Fewer segments make a shorter text. -/
lemma isPrefix_toList_ofSegments {ss ts : List String} (h : ss <+: ts) :
    (ofSegments ss).text.toList <+: (ofSegments ts).text.toList := by
  obtain ⟨us, rfl⟩ := h
  by_cases hss : ss = []
  · subst hss
    exact List.nil_prefix
  by_cases hus : us = []
  · subst hus
    exact ⟨[], by rw [List.append_nil, List.append_nil]⟩
  · have happend : (ofSegments (ss ++ us)).text =
        (ofSegments ss).text ++ "/" ++ (ofSegments us).text :=
      String.intercalate_append_of_ne_nil hss hus
    rw [happend, String.toList_append, String.toList_append, List.append_assoc]
    exact List.prefix_append _ _

lemma head?_ne_slash {s : String} (free : SlashFree s) : s.toList.head? ≠ some '/' :=
  fun h => free (List.mem_of_mem_head? h)

/-- A path is absolute if its first segment is empty and not the only one. -/
lemma isAbsolute_ofSegments {s : String} (free : SlashFree s) (ss : List String) :
    (ofSegments (s :: ss)).isAbsolute = true ↔ s = "" ∧ ss ≠ [] := by
  rw [isAbsolute, beq_iff_eq]
  by_cases hss : ss = []
  · have htext : (ofSegments (s :: ss)).text = s := by rw [hss]; rfl
    rw [htext]
    exact iff_of_false (head?_ne_slash free) fun h => h.2 hss
  · have htext : (ofSegments (s :: ss)).text = s ++ "/" ++ (ofSegments ss).text :=
      String.intercalate_cons_of_ne_nil hss
    rw [htext, String.toList_append, String.toList_append, List.append_assoc]
    by_cases hs : s = ""
    · subst hs
      exact iff_of_true rfl ⟨rfl, hss⟩
    · have hhead : ∃ c cs, s.toList = c :: cs := by
        cases hcs : s.toList with
        | nil => exact absurd (String.toList_eq_nil_iff.mp hcs) hs
        | cons c cs => exact ⟨c, cs, rfl⟩
      obtain ⟨c, cs, hcs⟩ := hhead
      have hc := head?_ne_slash free
      rw [hcs] at hc ⊢
      exact iff_of_false hc fun h => hs h.1

/-! ## Idle segments -/

lemma isIdle_iff {s : String} : isIdle s = true ↔ s = "" ∨ s = "." := by
  rw [isIdle, Bool.or_eq_true, beq_iff_eq, beq_iff_eq]

/-- The segments that lead somewhere. -/
def steps (p : Path) : List String := p.segments.filter fun s => !isIdle s

/-- The segments that are not empty. -/
def names (p : Path) : List String := p.segments.filter (· ≠ "")

lemma filter_names (p : Path) : p.names.filter (· ≠ ".") = p.steps := by
  rw [names, steps, List.filter_filter]
  refine List.filter_congr fun s _ => ?_
  rw [isIdle]
  by_cases h : s = "" <;> by_cases h' : s = "." <;> simp [h, h']

lemma isPrefix_dropIdle (ss : List String) : dropIdle ss <+: ss := List.rdropWhile_prefix _ _

lemma filter_dropIdle (ss : List String) :
    (dropIdle ss).filter (fun s => !isIdle s) = ss.filter fun s => !isIdle s := by
  have hidle : (ss.rtakeWhile isIdle).filter (fun s => !isIdle s) = [] := by
    refine List.filter_eq_nil_iff.mpr fun s hs => ?_
    have hs := List.mem_rtakeWhile_imp hs
    simp [hs]
  conv_rhs => rw [← List.rdropWhile_append_rtakeWhile (p := isIdle) (l := ss)]
  rw [List.filter_append, hidle, List.append_nil]
  rfl

lemma isIdle_of_dropIdle_eq {ss init : List String} {x : String} (h : dropIdle ss = init ++ [x]) :
    isIdle x = false := by
  have hne : ss.rdropWhile isIdle ≠ [] := by
    change dropIdle ss ≠ []
    rw [h]
    simp
  have hlast := List.rdropWhile_last_not isIdle ss hne
  have hx : (ss.rdropWhile isIdle).getLast hne = x := by
    have hlast? := List.getLast?_eq_some_getLast hne
    change (dropIdle ss).getLast? = _ at hlast?
    rw [h, List.getLast?_concat] at hlast?
    exact (Option.some.inj hlast?).symm
  rwa [hx, Bool.not_eq_true] at hlast

/-! ## Parents -/

section Parents

variable {p q : Path}

lemma trimmed_eq {s : String} {ss : List String} (h : p.segments = s :: ss) :
    p.trimmed = s :: dropIdle ss := by rw [trimmed, h]

/-- Either at most the first segment leads somewhere, or there is a last one that does. -/
lemma parent?_cases {s : String} {ss : List String} (h : p.segments = s :: ss) :
    (dropIdle ss = [] ∧ p.parent? = if s = "" then none else some ⟨""⟩) ∨
      ∃ init x, dropIdle ss = init ++ [x] ∧
        p.parent? = if s = "" ∧ dropIdle init = [] then some ⟨"/"⟩
          else some (ofSegments (s :: dropIdle init)) := by
  rw [parent?, trimmed_eq h]
  rcases List.eq_nil_or_concat' (dropIdle ss) with hnil | ⟨init, x, hlast⟩
  · rw [hnil]
    exact Or.inl ⟨rfl, rfl⟩
  · refine Or.inr ⟨init, x, hlast, ?_⟩
    have hdrop : (init ++ [x]).dropLast = init := List.dropLast_concat
    rw [hlast]
    cases hcons : init ++ [x] with
    | nil => simp at hcons
    | cons y ys =>
      rw [hcons] at hdrop
      simp only [hdrop]

lemma steps_eq {s : String} {ss : List String} (h : p.segments = s :: ss) :
    p.steps = ([s] ++ dropIdle ss).filter fun s => !isIdle s := by
  rw [steps, h, List.filter_append, filter_dropIdle, ← List.filter_append]
  rfl

/-- A parent as it is spelled. -/
inductive Spelling (p q : Path) : Prop where
  /-- Nothing is left of a relative path. -/
  | nothing (s : String) (ss : List String) (segments : p.segments = s :: ss) (named : s ≠ "")
      (only : dropIdle ss = []) (empty : q = ⟨""⟩)
  /-- Only the root is left of an absolute path. -/
  | root (ss init : List String) (x : String) (segments : p.segments = "" :: ss)
      (last : dropIdle ss = init ++ [x]) (bare : dropIdle init = []) (slash : q = ⟨"/"⟩)
  | front (s : String) (ss init : List String) (x : String) (segments : p.segments = s :: ss)
      (last : dropIdle ss = init ++ [x]) (more : s = "" → dropIdle init ≠ [])
      (up : q = ofSegments (s :: dropIdle init))

lemma spelling_of_parent (h : p.parent? = some q) : Spelling p q := by
  obtain ⟨s, ss, hsegments⟩ := List.exists_cons_of_ne_nil (segments_ne_nil p)
  rcases parent?_cases hsegments with ⟨hnil, hparent⟩ | ⟨init, x, hlast, hparent⟩
  · rw [hparent] at h
    split at h
    · cases h
    · rename_i hs
      exact .nothing s ss hsegments hs hnil (Option.some.inj h).symm
  · rw [hparent] at h
    split at h
    · rename_i hbare
      obtain ⟨rfl, hbare⟩ := hbare
      exact .root ss init x hsegments hlast hbare (Option.some.inj h).symm
    · rename_i hmore
      exact .front s ss init x hsegments hlast (fun hs hinit => hmore ⟨hs, hinit⟩)
        (Option.some.inj h).symm

/-- The segments of a parent are some of those of the path. -/
lemma slashFree_up {s x : String} {ss init : List String} (h : p.segments = s :: ss)
    (hlast : dropIdle ss = init ++ [x]) : ∀ t ∈ s :: dropIdle init, SlashFree t := by
  intro t ht
  refine slashFree_of_mem_segments (p := p) ?_
  rw [h]
  rcases List.mem_cons.mp ht with rfl | ht
  · exact List.mem_cons_self
  · have hinit : t ∈ init := (isPrefix_dropIdle init).subset ht
    have hss : t ∈ dropIdle ss := hlast ▸ List.mem_append_left _ hinit
    exact List.mem_cons_of_mem _ ((isPrefix_dropIdle ss).subset hss)

/-- A path with steps has a parent. -/
lemma exists_parent (h : p.steps ≠ []) : ∃ q, p.parent? = some q := by
  obtain ⟨s, ss, hsegments⟩ := List.exists_cons_of_ne_nil (segments_ne_nil p)
  rcases parent?_cases hsegments with ⟨hnil, hparent⟩ | ⟨init, x, hlast, hparent⟩
  · have hs : s ≠ "" := by
      rintro rfl
      apply h
      rw [steps_eq hsegments, hnil]
      rfl
    rw [if_neg hs] at hparent
    exact ⟨_, hparent⟩
  · rw [hparent]
    split <;> exact ⟨_, rfl⟩

lemma steps_parent (h : p.parent? = some q) : q.steps = p.steps.dropLast := by
  have drop_last {s x : String} {ss init : List String} (hsegments : p.segments = s :: ss)
      (hlast : dropIdle ss = init ++ [x]) :
      p.steps.dropLast = (s :: dropIdle init).filter fun s => !isIdle s := by
    have hx : [x].filter (fun s => !isIdle s) = [x] := by
      rw [List.filter_cons, isIdle_of_dropIdle_eq hlast]
      rfl
    rw [steps_eq hsegments, hlast, ← List.append_assoc, List.filter_append, hx,
      List.dropLast_concat, List.filter_append, ← filter_dropIdle init, ← List.filter_append]
    rfl
  cases spelling_of_parent h with
  | nothing s ss hsegments hs hnil hq =>
    subst hq
    rw [steps_eq hsegments, hnil]
    change [] = ([s].filter fun s => !isIdle s).dropLast
    rw [List.filter_cons]
    split <;> rfl
  | root ss init x hsegments hlast hinit hq =>
    subst hq
    rw [drop_last hsegments hlast, hinit]
    rfl
  | front s ss init x hsegments hlast _ hq =>
    subst hq
    rw [drop_last hsegments hlast, steps,
      segments_ofSegments (slashFree_up hsegments hlast) (List.cons_ne_nil _ _)]

lemma isAbsolute_parent (h : p.parent? = some q) : q.isAbsolute = p.isAbsolute := by
  have absolute_iff {s : String} {ss : List String} (hsegments : p.segments = s :: ss) :
      p.isAbsolute = true ↔ s = "" ∧ ss ≠ [] := by
    have hs : SlashFree s := slashFree_of_mem_segments (hsegments ▸ List.mem_cons_self)
    rw [← ofSegments_segments p, hsegments]
    exact isAbsolute_ofSegments hs ss
  have ne_nil {x : String} {ss init : List String} (hlast : dropIdle ss = init ++ [x]) :
      ss ≠ [] := by
    rintro rfl
    have hnil : ([] : List String) = init ++ [x] := hlast
    simp at hnil
  cases spelling_of_parent h with
  | nothing s ss hsegments hs hnil hq =>
    subst hq
    refine (Bool.eq_false_iff.mpr fun hp => ?_).symm
    exact hs ((absolute_iff hsegments).mp hp).1
  | root ss init x hsegments hlast hinit hq =>
    subst hq
    exact ((absolute_iff hsegments).mpr ⟨rfl, ne_nil hlast⟩).symm
  | front s ss init x hsegments hlast hmore hq =>
    subst hq
    have hs : SlashFree s := slashFree_of_mem_segments (hsegments ▸ List.mem_cons_self)
    rw [Bool.eq_iff_iff, absolute_iff hsegments, isAbsolute_ofSegments hs]
    exact ⟨fun h => ⟨h.1, ne_nil hlast⟩, fun h => ⟨h.1, hmore h.1⟩⟩

/-- The text of a parent is the front of the text of the path. -/
lemma text_parent (h : p.parent? = some q) : q.text.toList <+: p.text.toList := by
  have front {ts : List String} (hts : ts <+: p.segments) :
      (ofSegments ts).text.toList <+: p.text.toList := by
    conv_rhs => rw [← ofSegments_segments p]
    exact isPrefix_toList_ofSegments hts
  cases spelling_of_parent h with
  | nothing s ss hsegments hs hnil hq =>
    subst hq
    exact List.nil_prefix
  | root ss init x hsegments hlast hinit hq =>
    have habsolute := isAbsolute_parent h
    subst hq
    rw [isAbsolute, isAbsolute] at habsolute
    have hhead : p.text.toList.head? = some '/' := beq_iff_eq.mp habsolute.symm
    obtain ⟨cs, hcs⟩ := List.head?_eq_some_iff.mp hhead
    rw [hcs]
    exact ⟨cs, rfl⟩
  | front s ss init x hsegments hlast _ hq =>
    subst hq
    have hinit : init <+: ss := (List.prefix_append init [x]).trans (hlast ▸ isPrefix_dropIdle ss)
    refine front ?_
    rw [hsegments, List.cons_prefix_cons]
    exact ⟨rfl, (isPrefix_dropIdle init).trans hinit⟩

/-- A parent is another path. -/
lemma parent_ne (h : p.parent? = some q) : q ≠ p := by
  rintro rfl
  cases spelling_of_parent h with
  | nothing s ss hsegments hs _ hq =>
    rw [hq] at hsegments
    exact hs (List.cons.inj hsegments).1.symm
  | root ss init x hsegments hlast _ hq =>
    rw [hq] at hsegments
    obtain rfl : [""] = ss := (List.cons.inj hsegments).2
    have hnil : ([] : List String) = init ++ [x] := hlast
    simp at hnil
  | front s ss init x hsegments hlast _ hq =>
    have hup := segments_ofSegments (slashFree_up hsegments hlast) (List.cons_ne_nil _ _)
    rw [← hq, hsegments, List.cons.injEq, and_iff_right rfl] at hup
    -- the parent has fewer segments than the path
    have hinit := (isPrefix_dropIdle init).length_le
    have hss := (isPrefix_dropIdle ss).length_le
    rw [hlast, List.length_append, List.length_singleton] at hss
    rw [← hup] at hinit
    omega

/-- A path that does not end with a dot, unless it has no steps. -/
def Neat (p : Path) : Prop := p.steps = [] ∨ p.names.getLast? = p.steps.getLast?

lemma neat_parent (h : p.parent? = some q) : Neat q := by
  cases spelling_of_parent h with
  | nothing s ss hsegments hs hnil hq =>
    subst hq
    exact Or.inl rfl
  | root ss init x hsegments hlast hinit hq =>
    subst hq
    exact Or.inl rfl
  | front s ss init x hsegments hlast hmore hq =>
    subst hq
    have hq := segments_ofSegments (slashFree_up hsegments hlast) (List.cons_ne_nil _ _)
    rcases List.eq_nil_or_concat' (dropIdle init) with hnil | ⟨front, y, hfront⟩
    · have hs : s ≠ "" := fun heq => hmore heq hnil
      rw [Neat, steps, names, hq, hnil]
      by_cases hdot : s = "."
      · exact Or.inl (by rw [hdot]; rfl)
      · exact Or.inr (by simp [isIdle, hs, hdot])
    · have hy := isIdle_of_dropIdle_eq hfront
      have hyname : y ≠ "" := by
        rintro rfl
        cases hy
      refine Or.inr ?_
      rw [steps, names, hq, hfront, ← List.cons_append, List.filter_append, List.filter_append]
      simp [hy, hyname]

end Parents

/-! ## Names in a directory -/

lemma splitAt_append_cons (sep : Char) (cs ds : List Char) :
    splitAt sep (cs ++ sep :: ds) = splitAt sep cs ++ splitAt sep ds := by
  induction cs with
  | nil =>
    simp only [List.nil_append, splitAt, if_true, List.singleton_append]
  | cons c cs ih =>
    rw [List.cons_append, splitAt, splitAt, ih]
    by_cases h : c = sep
    · rw [if_pos h, if_pos h]
      rfl
    · rw [if_neg h, if_neg h]
      cases hcs : splitAt sep cs with
      | nil =>
        rw [splitAt_eq_splitOn] at hcs
        exact absurd hcs (List.splitOnP_ne_nil _ _)
      | cons w ws => rfl

lemma segments_append_slash (s t : String) :
    (Path.mk (s ++ "/" ++ t)).segments = (Path.mk s).segments ++ (Path.mk t).segments := by
  have htext : (s ++ "/" ++ t).toList = s.toList ++ '/' :: t.toList := by simp
  rw [segments, segments, segments, htext, splitAt_append_cons, List.map_append]

lemma segments_of_slashFree {s : String} (free : SlashFree s) : (Path.mk s).segments = [s] :=
  segments_ofSegments (fun _ ht => List.mem_singleton.mp ht ▸ free) (List.cons_ne_nil s [])

lemma isAbsolute_of_slashFree {s : String} (free : SlashFree s) :
    (Path.mk s).isAbsolute = false := by
  rw [isAbsolute, beq_eq_false_iff_ne]
  exact head?_ne_slash free

lemma join_empty (name : String) : (Path.mk "").join name = ⟨name⟩ := by
  have hempty : ((Path.mk "").text.isEmpty || (Path.mk "").endsInSlash) = true := rfl
  rw [join, if_pos hempty, String.empty_append, ite_self]

section Names

variable {p q : Path} {name n : String} {init : List String}

lemma steps_join (free : SlashFree name) (busy : isIdle name = false) :
    (q.join name).steps = q.steps ++ [name] := by
  have hname : (Path.mk name).steps = [name] := by
    rw [steps, segments_of_slashFree free, List.filter_cons, busy]
    rfl
  by_cases hempty : q.text = ""
  · obtain ⟨text⟩ := q
    change text = "" at hempty
    subst hempty
    rw [join_empty, hname]
    rfl
  rw [join, if_neg (by rw [isAbsolute_of_slashFree free]; exact Bool.false_ne_true)]
  by_cases hslash : q.endsInSlash = true
  · rw [if_pos (by rw [hslash, Bool.or_true])]
    -- the slash at the end is the separator
    have hlast : q.text.toList.getLast? = some '/' := beq_iff_eq.mp hslash
    obtain ⟨cs, hcs⟩ := List.getLast?_eq_some_iff.mp hlast
    have htext : q.text = String.ofList cs ++ "/" := by
      rw [← String.toList_inj, hcs]
      simp
    have hq : q.segments = (Path.mk (String.ofList cs)).segments ++ [""] := by
      have hmk : q = Path.mk (String.ofList cs ++ "/" ++ "") := by
        obtain ⟨text⟩ := q
        rw [String.append_empty]
        exact congrArg Path.mk htext
      rw [hmk, segments_append_slash]
      rfl
    rw [steps, steps, htext, segments_append_slash, hq, segments_of_slashFree free]
    have hidle : isIdle "" = true := rfl
    simp [busy, hidle]
  · have hempty' : q.text.isEmpty = false := by simpa using hempty
    have hboth : ¬ (q.text.isEmpty || q.endsInSlash) = true := by simp [hempty', hslash]
    rw [if_neg hboth, steps, segments_append_slash, List.filter_append]
    exact congrArg (q.steps ++ ·) hname

lemma isAbsolute_join (free : SlashFree name) : (q.join name).isAbsolute = q.isAbsolute := by
  have hname := isAbsolute_of_slashFree free
  by_cases hempty : q.text = ""
  · obtain ⟨text⟩ := q
    change text = "" at hempty
    subst hempty
    rw [join_empty, hname]
    rfl
  · have hhead : ∀ t : String, (q.text ++ t).toList.head? = q.text.toList.head? := by
      intro t
      rw [String.toList_append]
      cases hcs : q.text.toList with
      | nil => exact absurd (String.toList_eq_nil_iff.mp hcs) hempty
      | cons c cs => rfl
    rw [join, if_neg (by rw [hname]; exact Bool.false_ne_true)]
    split
    · rw [isAbsolute, isAbsolute, hhead]
    · rw [isAbsolute, isAbsolute, String.append_assoc, hhead]

lemma ne_nil_of_steps (h : p.steps = init ++ [n]) : p.steps ≠ [] := by
  rw [h]
  exact List.concat_ne_nil n init

/-- A path that does not end with a dot ends with its last step. -/
lemma Neat.last (neat : Neat p) (h : p.steps = init ++ [n]) : p.names.getLast? = some n := by
  have hlast := neat.resolve_left (ne_nil_of_steps h)
  rw [hlast, h, List.getLast?_concat]

lemma busy_of_steps (h : p.steps = init ++ [n]) : isIdle n = false := by
  have hmem : n ∈ p.steps := h ▸ List.mem_append_right _ List.mem_cons_self
  simpa using (List.mem_filter.mp hmem).2

lemma slashFree_of_steps (h : p.steps = init ++ [n]) : SlashFree n := by
  have hmem : n ∈ p.steps := h ▸ List.mem_append_right _ List.mem_cons_self
  exact slashFree_of_mem_segments (List.mem_filter.mp hmem).1

/-- The last step of a path is its name, if it does not lead back. -/
lemma fileName?_of_steps (h : p.steps = init ++ [n]) (forward : n ≠ "..") :
    p.fileName? = some n := by
  obtain ⟨s, ss, hsegments⟩ := List.exists_cons_of_ne_nil (segments_ne_nil p)
  have hsteps := steps_eq hsegments
  have hlast : p.trimmed.getLast? = some n := by
    rw [trimmed_eq hsegments]
    rcases List.eq_nil_or_concat' (dropIdle ss) with hnil | ⟨front, x, hfront⟩
    · rw [h, hnil, List.append_nil, List.filter_cons] at hsteps
      rw [hnil]
      split at hsteps
      · have hsingle : init ++ [n] = [] ++ [s] := hsteps
        have hpair := List.append_inj' hsingle rfl
        exact congrArg some (List.singleton_inj.mp hpair.2).symm
      · simp at hsteps
    · have hx := isIdle_of_dropIdle_eq hfront
      rw [h, hfront, ← List.append_assoc, List.filter_append, List.filter_singleton, hx] at hsteps
      have hpair := List.append_inj' hsteps rfl
      have hn : n = x := List.singleton_inj.mp hpair.2
      rw [hfront, ← List.cons_append, List.getLast?_concat, hn]
  rw [fileName?, hlast, Option.filter_some, busy_of_steps h]
  simp [forward]

lemma busy_temporary (n : String) : isIdle (n ++ ".tmp") = false := by
  refine Bool.eq_false_iff.mpr fun hidle => ?_
  have hlength : (n ++ ".tmp").toList.length ≤ 1 := by
    rcases isIdle_iff.mp hidle with h | h <;> rw [h] <;> decide
  simp at hlength

lemma slashFree_temporary (free : SlashFree n) : SlashFree (n ++ ".tmp") := by
  rw [SlashFree, String.toList_append, List.mem_append, not_or]
  exact ⟨free, by decide⟩

/-- The temporary sibling of a path is a path to another name in the same directory. -/
lemma steps_temporary (h : p.steps = init ++ [n]) (forward : n ≠ "..") :
    p.temporary.steps = init ++ [n ++ ".tmp"] ∧ p.temporary.isAbsolute = p.isAbsolute := by
  have hname := fileName?_of_steps h forward
  have hfree := slashFree_temporary (slashFree_of_steps h)
  obtain ⟨q, hparent⟩ := exists_parent (ne_nil_of_steps h)
  have htemporary : p.temporary = q.join (n ++ ".tmp") := by
    simp only [temporary, withFileName, hname, hparent, Option.getD_some]
  have hsteps : q.steps = init := by
    rw [steps_parent hparent, h, List.dropLast_concat]
  rw [htemporary, steps_join hfree (busy_temporary n), isAbsolute_join hfree,
    isAbsolute_parent hparent, hsteps]
  exact ⟨rfl, rfl⟩

/-- A name at the end of a path is its last step. -/
lemma steps_of_fileName? (h : p.fileName? = some n) : n ≠ ".." ∧ ∃ init, p.steps = init ++ [n] := by
  obtain ⟨hlast, hname⟩ := Option.filter_eq_some_iff.mp h
  rw [Bool.not_eq_true', Bool.or_eq_false_iff, beq_eq_false_iff_ne] at hname
  obtain ⟨s, ss, hsegments⟩ := List.exists_cons_of_ne_nil (segments_ne_nil p)
  rw [trimmed_eq hsegments] at hlast
  obtain ⟨front, hfront⟩ := List.getLast?_eq_some_iff.mp hlast
  refine ⟨hname.2, front.filter fun s => !isIdle s, ?_⟩
  rw [steps_eq hsegments, List.singleton_append, hfront, List.filter_append,
    List.filter_cons_of_pos (by simp [hname.1]), List.filter_nil]

/-- The temporary sibling of a path without a name is below the path. -/
lemma steps_temporary_of_nameless (h : p.fileName? = none) :
    p.temporary.steps = p.steps ++ [".tmp"] ∧ p.temporary.isAbsolute = p.isAbsolute := by
  have free : SlashFree ".tmp" := by
    rw [SlashFree]
    decide
  have htemporary : p.temporary = p.join ".tmp" := by
    simp only [temporary, withFileName, h, Option.getD_none]
    rfl
  rw [htemporary, steps_join free rfl, isAbsolute_join free]
  exact ⟨rfl, rfl⟩

lemma append_temporary_ne (n : String) : n ++ ".tmp" ≠ n := by
  intro heq
  have hlength := congrArg String.length heq
  have hsuffix : ".tmp".length = 4 := rfl
  rw [String.length_append] at hlength
  omega

/-- The temporary sibling is another path. -/
lemma temporary_ne (p : Path) : p.temporary ≠ p := by
  intro heq
  cases hname : p.fileName? with
  | none =>
    have hsteps := (steps_temporary_of_nameless hname).1
    rw [heq] at hsteps
    simp at hsteps
  | some n =>
    obtain ⟨forward, init, hinit⟩ := steps_of_fileName? hname
    have hsteps := (steps_temporary hinit forward).1
    rw [heq, hinit] at hsteps
    exact append_temporary_ne n (List.singleton_inj.mp (List.append_cancel_left hsteps)).symm

end Names

end SchemaStack.Path
