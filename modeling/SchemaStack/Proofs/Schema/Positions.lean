import SchemaStack.Proofs.Schema.Rendering
import Mathlib.Data.List.Infix
/-!
# Where tokens stand

A text is walked through piece by piece: what is passed over, and tokens as they are written. The
line of a token is one more than the number of newlines in front of its first character, whatever
they stand in. Where the walk ends early, it ends on a line of the text.
-/

namespace SchemaStack.Lexer

/-- What is written between the quotes of a string on one line, and the characters that it is
read as. -/
inductive LineText : List Char → List Char → Prop
  | nil : LineText [] []
  | plain {c : Char} {raw s : List Char} (quote : c ≠ '"') (escape : c ≠ '\\') (newline : c ≠ '\n')
      (tail : LineText raw s) : LineText (c :: raw) (c :: s)
  | escaped {e c : Char} {raw s : List Char} (h : escape? e = some c) (tail : LineText raw s) :
      LineText ('\\' :: e :: raw) (c :: s)

/-- The characters from the first to the last of a token in a text. -/
inductive Denotes : List Char → Token → Prop
  | punct {c : Char} (h : c ∈ punctuation) : Denotes [c] (.punct c)
  | name {n : String} (h : IsName n) : Denotes n.toList (.name n)
  | number {c : Char} {ds : List Char} {t : Token} (starts : startsNumber c = true)
      (continues : ∀ d ∈ ds, continuesNumber d = true) (value : number? (c :: ds) = some t) :
      Denotes (c :: ds) t
  | line {raw s : List Char} (h : LineText raw s) :
      Denotes ('"' :: (raw ++ ['"'])) (.string (String.ofList s))
  /-- The three quotes at the end are the first behind those in front. -/
  | block {s : List Char} (closes : ¬ ['"', '"', '"'] <:+: s ++ ['"', '"']) :
      Denotes ('"' :: '"' :: '"' :: (s ++ ['"', '"', '"'])) (.string (String.ofList s))

/-- The text behind `before` holds these tokens, each on the line on which its first character
stands. -/
inductive Laid : (before : List Char) → List Char → List Lexeme → Prop
  | nil (before : List Char) : Laid before [] []
  /-- The last line need not end. -/
  | comment {before text : List Char} (h : '\n' ∉ text) : Laid before ('#' :: text) []
  | skip {before gap rest : List Char} {ls : List Lexeme} (ignorable : Ignorable gap)
      (tail : Laid (before ++ gap) rest ls) : Laid before (gap ++ rest) ls
  | token {before word rest : List Char} {t : Token} {ls : List Lexeme} (denotes : Denotes word t)
      (tail : Laid (before ++ word) rest ls) :
      Laid before (word ++ rest) (⟨t, 1 + before.count '\n'⟩ :: ls)

/-! ## Strings -/

lemma lineText_of_lineBody {cs : List Char} {r : Reading (List Char) cs}
    (h : lineBody cs = .ok r) : ∃ raw, LineText raw r.value ∧ cs = raw ++ '"' :: r.rest := by
  fun_induction lineBody cs with
  | case1 => cases h
  | case2 rest =>
    cases h
    exact ⟨[], .nil, rfl⟩
  | case3 => cases h
  | case4 => cases h
  | case5 e rest c hescape ih =>
    obtain ⟨r', hr', rfl⟩ := map_eq_ok h
    obtain ⟨raw, htext, hrest⟩ := ih hr'
    exact ⟨'\\' :: e :: raw, .escaped hescape htext, congrArg (fun cs => '\\' :: e :: cs) hrest⟩
  | case6 => cases h
  | case7 c rest hquote hlone hescape hnewline ih =>
    obtain ⟨r', hr', rfl⟩ := map_eq_ok h
    obtain ⟨raw, htext, hrest⟩ := ih hr'
    -- a backslash is alone or has a character behind it
    have plain : c ≠ '\\' := fun hc => by
      cases rest with
      | nil => exact hlone hc rfl
      | cons e rest => exact hescape e rest hc rfl
    exact ⟨c :: raw, .plain hquote plain hnewline htext, congrArg (c :: ·) hrest⟩

lemma block_of_blockBody {cs : List Char} {r : Reading (List Char) cs} (h : blockBody cs = some r) :
    (¬ ['"', '"', '"'] <:+: r.value ++ ['"', '"']) ∧
      cs = r.value ++ '"' :: '"' :: '"' :: r.rest := by
  fun_induction blockBody cs with
  | case1 => cases h
  | case2 rest =>
    cases h
    have short : ¬ (['"', '"', '"'] : List Char).length ≤ ['"', '"'].length := by decide
    exact ⟨fun hinfix => short hinfix.length_le, rfl⟩
  | case3 c rest hopen ih =>
    obtain ⟨r', hr', rfl⟩ := Option.map_eq_some_iff.mp h
    obtain ⟨closes, hrest⟩ := ih hr'
    refine ⟨fun hinfix => ?_, congrArg (c :: ·) hrest⟩
    rcases List.infix_cons_iff.mp hinfix with hprefix | hinfix
    -- quotes in front would have ended the string here
    · obtain ⟨hc, hprefix⟩ := List.cons_prefix_cons.mp hprefix
      have hrest' : rest = (r'.value ++ ['"', '"']) ++ '"' :: r'.rest := by
        rw [List.append_assoc]
        exact hrest
      obtain ⟨behind, hbehind⟩ := hprefix.trans (List.prefix_append _ ('"' :: r'.rest))
      exact hopen behind hc.symm (hrest'.trans hbehind.symm)
    · exact closes hinfix

lemma newline_notMem_of_lineText {raw s : List Char} (h : LineText raw s) : '\n' ∉ raw := by
  induction h with
  | nil => exact List.not_mem_nil
  | plain _ _ newline _ ih => exact List.not_mem_cons_of_ne_of_not_mem newline.symm ih
  | @escaped e _ _ _ hescape _ ih =>
    have newline : '\n' ≠ e := by
      rintro rfl
      cases hescape
    exact List.not_mem_cons_of_ne_of_not_mem (by decide)
      (List.not_mem_cons_of_ne_of_not_mem newline ih)

/-- A quote and what is read behind it are a string, and the newlines of the string are those that
are counted. -/
lemma denotes_of_quoted {cs : List Char} {r : Reading (List Char × Nat) cs}
    (h : quoted cs = .ok r) :
    ∃ word, Denotes ('"' :: word) (.string (String.ofList r.value.1)) ∧ cs = word ++ r.rest ∧
      ('"' :: word).count '\n' = r.value.2 := by
  fun_cases quoted cs with
  | case1 rest hbody =>
    rw [quoted, hbody] at h
    cases h
  | case2 rest body hbody =>
    rw [quoted, hbody] at h
    cases h
    obtain ⟨closes, hrest⟩ := block_of_blockBody hbody
    refine ⟨_, .block closes, ?_, ?_⟩
    · simp [hrest, Reading.cons, Reading.map]
    · simp [Reading.cons, Reading.map, List.count_append]
  | case3 _ hinline =>
    rw [quoted] at h
    · obtain ⟨body, hbody, rfl⟩ := map_eq_ok h
      obtain ⟨raw, htext, hrest⟩ := lineText_of_lineBody hbody
      refine ⟨raw ++ ['"'], .line htext, ?_, ?_⟩
      · exact hrest.trans (List.append_assoc raw ['"'] body.rest).symm
      · have hcount := List.count_eq_zero.mpr (newline_notMem_of_lineText htext)
        simp [List.count_append, hcount, Reading.map]
    · exact hinline

/-! ## One step -/

lemma Denotes.ne_nil {word : List Char} {t : Token} (h : Denotes word t) : word ≠ [] := by
  cases h with
  | name hname =>
    obtain ⟨c, cs, hn, _⟩ := hname
    rw [hn]
    exact List.cons_ne_nil c cs
  | _ => exact List.cons_ne_nil _ _

/-- What a text that starts on the line begins with, and what reading it comes to. -/
inductive Begins (line : Nat) : List Char → Except SchemaError (List Lexeme) → Prop
  | nil : Begins line [] (.ok [])
  | comment {text : List Char} (h : '\n' ∉ text) : Begins line ('#' :: text) (.ok [])
  | skip {gap : List Char} (ignorable : Ignorable gap) (nonempty : gap ≠ []) (rest : List Char) :
      Begins line (gap ++ rest) (tokensFrom (line + gap.count '\n') rest)
  | token {word : List Char} {t : Token} (denotes : Denotes word t) (rest : List Char) :
      Begins line (word ++ rest)
        ((tokensFrom (line + word.count '\n') rest).map (⟨t, line⟩ :: ·))
  | fault (f : LexicalFault) (cs : List Char) :
      Begins line cs (.error ((Fault.lexical f).onLine line))

lemma begins_separator {c : Char} (h : isSeparator c = true) (line : Nat) (cs : List Char) :
    Begins line (c :: cs) (tokensFrom (if c = '\n' then line + 1 else line) cs) := by
  have hcount : (if c = '\n' then line + 1 else line) = line + [c].count '\n' := by
    by_cases hc : c = '\n' <;> simp [hc]
  rw [hcount]
  exact .skip (.separator h .nil) (List.cons_ne_nil c []) cs

lemma all_takeWhile {p : Char → Bool} {cs : List Char} {c : Char} (h : c ∈ cs.takeWhile p) :
    p c = true := List.all_eq_true.mp List.all_takeWhile c h

lemma begins_comment (line : Nat) (cs : List Char) :
    Begins line ('#' :: cs) (tokensFrom line (cs.dropWhile (· ≠ '\n'))) := by
  have inside : '\n' ∉ cs.takeWhile (· ≠ '\n') := fun hmem => by
    simpa using all_takeWhile hmem
  have hsplit : cs.takeWhile (· ≠ '\n') ++ cs.dropWhile (· ≠ '\n') = cs :=
    List.takeWhile_append_dropWhile
  have ends := List.head?_dropWhile_not (· ≠ '\n') cs
  generalize cs.takeWhile (· ≠ '\n') = text at inside hsplit
  generalize cs.dropWhile (· ≠ '\n') = rest at ends hsplit
  subst hsplit
  cases rest with
  | nil =>
    rw [List.append_nil, tokensFrom_nil]
    exact .comment inside
  | cons c rest =>
    obtain rfl : c = '\n' := by simpa using ends
    have hcount : ('#' :: (text ++ ['\n'])).count '\n' = 1 := by
      simp [List.count_eq_zero.mpr inside]
    have ignorable : Ignorable ('#' :: (text ++ ['\n'])) := .comment inside .nil
    have h : Begins line _ _ := .skip ignorable (List.cons_ne_nil _ _) rest
    rw [hcount, List.cons_append, List.append_assoc] at h
    rw [tokensFrom_newline]
    exact h

/-- A word of characters of one sort behind its first character, which none of them ends a line. -/
lemma begins_word {p : Char → Bool} (newline : p '\n' = false) {c : Char} (hc : c ≠ '\n')
    {cs : List Char} {t : Token} (denotes : Denotes (c :: cs.takeWhile p) t) (line : Nat) :
    Begins line (c :: cs) ((tokensFrom line (cs.dropWhile p)).map (⟨t, line⟩ :: ·)) := by
  have hcount : (c :: cs.takeWhile p).count '\n' = 0 := by
    refine List.count_eq_zero.mpr (List.not_mem_cons_of_ne_of_not_mem hc.symm fun hmem => ?_)
    exact absurd (all_takeWhile hmem) (Bool.eq_false_iff.mp newline)
  have h : Begins line _ _ := .token denotes (cs.dropWhile p)
  rwa [hcount, List.cons_append, List.takeWhile_append_dropWhile] at h

lemma begins_tokensFrom (line : Nat) (cs : List Char) : Begins line cs (tokensFrom line cs) := by
  fun_cases tokensFrom line cs with
  | case1 => exact .nil
  | case2 cs => exact begins_separator (c := '\n') rfl line cs
  | case3 c cs hnewline hseparator =>
    have h := begins_separator hseparator line cs
    rwa [if_neg hnewline] at h
  | case4 => exact begins_comment line _
  | case5 c cs hnewline _ _ hpunct =>
    have h : Begins line _ _ := .token (.punct (List.contains_iff_mem.mp hpunct)) cs
    rwa [List.count_singleton, if_neg (by simpa using hnewline)] at h
  | case6 => exact .fault _ _
  | case7 cs r hquoted =>
    obtain ⟨word, denotes, hsplit, hcount⟩ := denotes_of_quoted hquoted
    have h : Begins line _ _ := .token denotes r.rest
    rwa [hcount, List.cons_append, ← hsplit] at h
  | case8 => exact .fault _ _
  | case9 c cs hnewline _ _ _ _ hstarts text t hnumber =>
    have denotes := Denotes.number hstarts (fun _ => all_takeWhile) hnumber
    exact begins_word rfl hnewline denotes line
  | case10 c cs hnewline _ _ _ _ _ hstarts text =>
    have denotes : Denotes (c :: cs.takeWhile continuesName) (.name (String.ofList text)) := by
      have h := Denotes.name (isName_takeWhile hstarts cs)
      rwa [String.toList_ofList] at h
    exact begins_word rfl hnewline denotes line
  | case11 => exact .fault _ _

/-! ## The whole text -/

/-- By the step lemma, the walk goes on behind what is passed over and behind each token. -/
@[elab_as_elim]
lemma walk {motive : Nat → List Char → Prop}
    (nil : ∀ line, motive line [])
    (comment : ∀ line text, '\n' ∉ text → tokensFrom line ('#' :: text) = .ok [] →
      motive line ('#' :: text))
    (skip : ∀ line gap rest, Ignorable gap →
      tokensFrom line (gap ++ rest) = tokensFrom (line + gap.count '\n') rest →
        motive (line + gap.count '\n') rest → motive line (gap ++ rest))
    (token : ∀ line word rest t, Denotes word t →
      tokensFrom line (word ++ rest) =
        (tokensFrom (line + word.count '\n') rest).map (⟨t, line⟩ :: ·) →
          motive (line + word.count '\n') rest → motive line (word ++ rest))
    (fault : ∀ line cs f, tokensFrom line cs = .error ((Fault.lexical f).onLine line) →
      motive line cs)
    (line : Nat) (cs : List Char) : motive line cs := by
  induction hlength : cs.length using Nat.strongRecOn generalizing line cs with
  | _ length ih =>
    subst hlength
    have begins := begins_tokensFrom line cs
    generalize hx : tokensFrom line cs = x at begins
    cases begins with
    | nil => exact nil line
    | comment htext => exact comment line _ htext hx
    | @skip gap ignorable nonempty rest =>
      have shorter : rest.length < (gap ++ rest).length := by
        have := List.length_pos_of_ne_nil nonempty
        simpa
      exact skip line gap rest ignorable hx (ih _ shorter _ rest rfl)
    | @token word t denotes rest =>
      have shorter : rest.length < (word ++ rest).length := by
        have := List.length_pos_of_ne_nil denotes.ne_nil
        simpa
      exact token line word rest t denotes hx (ih _ shorter _ rest rfl)
    | fault f => exact fault line cs f hx

lemma laid_of_tokensFrom {line : Nat} {before cs : List Char} {ls : List Lexeme}
    (hline : line = 1 + before.count '\n') (h : tokensFrom line cs = .ok ls) :
    Laid before cs ls := by
  induction line, cs using walk generalizing before ls with
  | nil line =>
    rw [tokensFrom_nil] at h
    cases h
    exact .nil before
  | comment line text htext hread =>
    rw [hread] at h
    cases h
    exact .comment htext
  | skip line gap rest ignorable hread ih =>
    rw [hread] at h
    refine .skip ignorable (ih ?_ h)
    rw [hline, List.count_append, Nat.add_assoc]
  | token line word rest t denotes hread ih =>
    rw [hread] at h
    obtain ⟨ls, hls, rfl⟩ := map_eq_ok h
    subst hline
    refine .token denotes (ih ?_ hls)
    rw [List.count_append, Nat.add_assoc]
  | fault line cs f hread =>
    rw [hread] at h
    cases h

/-- Every token of a text is on the line of its first character. -/
theorem laid_of_tokens {text : String} {ls : List Lexeme} (h : tokens text = .ok ls) :
    Laid [] text.toList ls := laid_of_tokensFrom rfl h

/-- The lines that a text has which begins on the line `first`. -/
def LinesOf (first : Nat) (cs : List Char) (line : Nat) : Prop :=
  first ≤ line ∧ line ≤ first + cs.count '\n'

lemma linesOf_of_laid {before cs : List Char} {ls : List Lexeme} (h : Laid before cs ls) :
    ∀ l ∈ ls, LinesOf (1 + before.count '\n') cs l.line := by
  induction h with
  | nil => exact fun l hl => absurd hl List.not_mem_nil
  | comment => exact fun l hl => absurd hl List.not_mem_nil
  | skip _ _ ih =>
    intro l hl
    have hline := ih l hl
    simp only [LinesOf, List.count_append] at hline ⊢
    omega
  | token _ _ ih =>
    simp only [List.forall_mem_cons, LinesOf, List.count_append] at ih ⊢
    refine ⟨by omega, fun l hl => ?_⟩
    have hline := ih l hl
    omega

lemma linesOf_of_error {first : Nat} {cs : List Char} {e : SchemaError}
    (h : tokensFrom first cs = .error e) : ∃ line, e.line = some line ∧ LinesOf first cs line := by
  -- the lines of what is left are among those of the text
  have within {first : Nat} {front rest : List Char} :
      (∃ line, e.line = some line ∧ LinesOf (first + front.count '\n') rest line) →
        ∃ line, e.line = some line ∧ LinesOf first (front ++ rest) line := by
    rintro ⟨line, hline, hrange⟩
    refine ⟨line, hline, ?_⟩
    simp only [LinesOf, List.count_append] at hrange ⊢
    omega
  induction first, cs using walk with
  | nil first =>
    rw [tokensFrom_nil] at h
    cases h
  | comment first text _ hread =>
    rw [hread] at h
    cases h
  | skip first gap rest _ hread ih =>
    rw [hread] at h
    exact within (ih h)
  | token first word rest t _ hread ih =>
    rw [hread] at h
    exact within (ih (map_eq_error h))
  | fault first cs f hread =>
    rw [hread] at h
    cases h
    exact ⟨first, rfl, Nat.le_refl _, Nat.le_add_right _ _⟩

end SchemaStack.Lexer
