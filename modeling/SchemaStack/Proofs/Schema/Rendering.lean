import SchemaStack.Proofs.Schema.Spelling
import SchemaStack.Proofs.Json.Literals
/-!
# Formatting

The texts that a list of tokens can be written as, whatever stands between the tokens. A token is
read as far as its characters go, so it is enough that something ignorable comes before the next
one; it cannot be part of either. All such texts are read as the same tokens, on lines that depend
on the text.
-/

namespace SchemaStack.Lexer

/-- What is passed over: separators, and comments with the newline that ends them. -/
inductive Ignorable : List Char → Prop
  | nil : Ignorable []
  | separator {c : Char} {cs : List Char} (h : isSeparator c = true) :
      Ignorable cs → Ignorable (c :: cs)
  | comment {text cs : List Char} (h : '\n' ∉ text) :
      Ignorable cs → Ignorable ('#' :: (text ++ '\n' :: cs))

/-- A character of a string as it is written between quotes. -/
def escaped (c : Char) : List Char :=
  if c = '"' ∨ c = '\\' then ['\\', c] else if c = '\n' then ['\\', 'n'] else [c]

def numeral (n : Int) : List Char :=
  (if n < 0 then ['-'] else []) ++ Nat.toDigits 10 n.natAbs

/-- How a token is written. -/
inductive Spells : Token → List Char → Prop
  | name {n : String} (h : IsName n) : Spells (.name n) n.toList
  | string (s : String) : Spells (.string s) ('"' :: (s.toList.flatMap escaped ++ ['"']))
  | int {n : Int} (low : -2 ^ 63 ≤ n) (high : n < 2 ^ 63) : Spells (.int n) (numeral n)
  | punct {c : Char} (h : c ∈ punctuation) : Spells (.punct c) [c]

/-- Tokens one after the other, with something between any two of them. -/
inductive Spaced : List Token → List Char → Prop
  | nil : Spaced [] []
  | cons {t : Token} {ts : List Token} {word gap cs : List Char} (spells : Spells t word)
      (ignorable : Ignorable gap) (apart : ts ≠ [] → gap ≠ []) (rest : Spaced ts cs) :
      Spaced (t :: ts) (word ++ (gap ++ cs))

/-- The text is one of those that the tokens can be written as. -/
def Renders (ts : List Token) (text : String) : Prop :=
  ∃ lead cs, Ignorable lead ∧ Spaced ts cs ∧ text.toList = lead ++ cs

/-! ## What is passed over -/

lemma tokensFrom_separator {c : Char} (h : isSeparator c = true) (line : Nat) (cs : List Char) :
    tokensFrom line (c :: cs) = tokensFrom (if c = '\n' then line + 1 else line) cs := by
  rw [tokensFrom, if_pos h]
  split
  · rfl
  · rfl

lemma tokensFrom_comment {text : List Char} (h : '\n' ∉ text) (line : Nat) (cs : List Char) :
    tokensFrom line ('#' :: (text ++ '\n' :: cs)) = tokensFrom (line + 1) cs := by
  have inside : ∀ c ∈ text, decide (c ≠ '\n') = true := by
    intro c hc
    exact decide_eq_true fun heq => h (heq ▸ hc)
  have ends : ∀ c ∈ ('\n' :: cs).head?, decide (c ≠ '\n') = false := by simp
  rw [tokensFrom, if_neg (by decide), if_neg (by decide), if_pos rfl,
    (takeWhile_append_of_ends inside ends).2, tokensFrom_newline]

lemma Ignorable.lexes {gap : List Char} (h : Ignorable gap) (line : Nat) :
    ∃ line', Lexes line gap line' [] := by
  induction h generalizing line with
  | nil => exact ⟨line, .nil line⟩
  | separator hc _ ih =>
    obtain ⟨line', lexes⟩ := ih _
    exact ⟨line', fun rest => by rw [List.cons_append, tokensFrom_separator hc, lexes]⟩
  | comment htext _ ih =>
    obtain ⟨line', lexes⟩ := ih (line + 1)
    refine ⟨line', fun rest => ?_⟩
    rw [List.cons_append, List.append_assoc, List.cons_append, tokensFrom_comment htext, lexes]

/-- Nothing is left, or what is left begins with something ignorable. -/
def Stops (rest : List Char) : Prop := ∀ c ∈ rest.head?, isSeparator c = true ∨ c = '#'

lemma Ignorable.stops {gap : List Char} (h : Ignorable gap) : Stops gap := by
  intro c hc
  cases h with
  | nil => cases hc
  | separator hsep => exact Or.inl (Option.mem_some_iff.mp hc ▸ hsep)
  | comment => exact Or.inr (Option.mem_some_iff.mp hc).symm

/-- No character of a name or of a number is ignorable. -/
lemma Stops.outside {rest : List Char} (stops : Stops rest) {c : Char} (hc : c ∈ rest.head?) :
    c.toNat < 45 ∨ 122 < c.toNat := by
  by_contra hrange
  rw [not_or, not_lt, not_lt] at hrange
  rcases stops c hc with h | rfl
  · simp only [isSeparator, isBlank_eq_false (c := c) (by omega) (by omega), Bool.false_or,
      Bool.or_eq_true, beq_iff_eq] at h
    rcases h with rfl | rfl
    · exact absurd hrange (by decide)
    · exact absurd hrange (by decide)
  · exact absurd hrange (by decide)

/-! ## Numbers -/

lemma toNat_of_isDigit {c : Char} (h : isDigit c = true) : 48 ≤ c.toNat ∧ c.toNat ≤ 57 := by
  rw [isDigit, Bool.and_eq_true, decide_eq_true_eq, decide_eq_true_eq] at h
  exact h

lemma Stops.continuesName {rest : List Char} (stops : Stops rest) :
    ∀ c ∈ rest.head?, continuesName c = false := by
  intro c hc
  have outside := stops.outside hc
  refine Bool.eq_false_iff.mpr fun h => ?_
  rw [Lexer.continuesName, Bool.or_eq_true] at h
  rcases h with h | h
  · have := toNat_of_startsName (c := c) h
    omega
  · have := toNat_of_isDigit h
    omega

lemma Stops.continuesNumber {rest : List Char} (stops : Stops rest) :
    ∀ c ∈ rest.head?, continuesNumber c = false := by
  intro c hc
  have outside := stops.outside hc
  refine Bool.eq_false_iff.mpr fun h => ?_
  rw [Lexer.continuesNumber, Bool.or_eq_true, beq_iff_eq] at h
  rcases h with rfl | h
  · exact absurd outside (by decide)
  · have := toNat_of_isDigit h
    omega

lemma isDigit_of_mem_toDigits {n : Nat} {c : Char} (h : c ∈ Nat.toDigits 10 n) :
    isDigit c = true := JsonText.isDigit_of_mem_toDigits h

lemma digitsValue_toDigits (n : Nat) : digitsValue (Nat.toDigits 10 n) = n := by
  have hfold : digitsValue (Nat.toDigits 10 n) = Nat.ofDigitChars 10 (Nat.toDigits 10 n) 0 := by
    rw [digitsValue, Nat.ofDigitChars_eq_foldl]
    congr 1
    funext acc c
    rw [Nat.mul_comm]
  rw [hfold, Nat.ofDigitChars_ten_toDigits]

/-- A number is written with digits behind a sign, and the first character tells that it is one. -/
lemma numeral_eq_cons (n : Int) :
    ∃ c ds, numeral n = c :: ds ∧ startsNumber c = true ∧ ∀ d ∈ ds, isDigit d = true := by
  obtain ⟨c, ds, hds, -, -⟩ := JsonText.toDigits_eq_cons n.natAbs
  have digits : ∀ d ∈ c :: ds, isDigit d = true := fun d hd => isDigit_of_mem_toDigits (hds ▸ hd)
  by_cases negative : n < 0
  · refine ⟨'-', c :: ds, ?_, rfl, digits⟩
    rw [numeral, if_pos negative, hds]
    rfl
  · refine ⟨c, ds, ?_, ?_, fun d hd => digits d (List.mem_cons_of_mem _ hd)⟩
    · rw [numeral, if_neg negative, hds]
      rfl
    · rw [startsNumber, digits c List.mem_cons_self, Bool.or_true]

lemma int?_toDigits {negative : Bool} {n : Nat} {m : Int} (low : -2 ^ 63 ≤ m) (high : m < 2 ^ 63)
    (signed : (if negative then -(n : Int) else n) = m) :
    int? negative (Nat.toDigits 10 n) = some (.int m) := by
  have hdigits : (Nat.toDigits 10 n).isEmpty = false := by
    obtain ⟨c, ds, hds, -, -⟩ := JsonText.toDigits_eq_cons n
    rw [hds]
    rfl
  have hlow : ¬ m < -((Nat.pow 2 63 : Nat) : Int) := not_lt.mpr low
  have hhigh : ¬ ((Nat.pow 2 63 : Nat) : Int) ≤ m := not_le.mpr high
  simp only [int?, digitsValue_toDigits, signed, hdigits, hlow, hhigh, decide_false, Bool.or_self,
    Bool.false_eq_true, if_false]

lemma number?_numeral {n : Int} (low : -2 ^ 63 ≤ n) (high : n < 2 ^ 63) :
    number? (numeral n) = some (.int n) := by
  have whole : (Nat.toDigits 10 n.natAbs).contains '.' = false := by
    refine Bool.eq_false_iff.mpr fun h => ?_
    exact absurd (isDigit_of_mem_toDigits (List.contains_iff_mem.mp h)) (by decide)
  by_cases negative : n < 0
  · have signed : (if true = true then -(n.natAbs : Int) else n.natAbs) = n := by
      rw [if_pos rfl]
      omega
    rw [numeral, if_pos negative, List.singleton_append, number?]
    simp only [whole, Bool.false_eq_true, if_false]
    exact int?_toDigits low high signed
  · have signed : (if false = true then -(n.natAbs : Int) else n.natAbs) = n := by
      rw [if_neg Bool.false_ne_true]
      omega
    have hread := int?_toDigits low high signed
    rw [numeral, if_neg negative, List.nil_append]
    obtain ⟨c, ds, hds, -, -⟩ := JsonText.toDigits_eq_cons n.natAbs
    have unsigned : ∀ ds', c :: ds = '-' :: ds' → False := by
      rintro ds' heq
      obtain ⟨rfl, -⟩ := List.cons.inj heq
      exact absurd (isDigit_of_mem_toDigits (hds ▸ List.mem_cons_self)) (by decide)
    rw [hds] at whole hread ⊢
    rw [number?]
    · simp only [whole, Bool.false_eq_true, if_false]
      exact hread
    · exact unsigned

/-- The first character of a number starts nothing else. -/
lemma not_special_of_startsNumber {c : Char} (h : startsNumber c = true) :
    c ≠ '\n' ∧ isSeparator c = false ∧ c ≠ '#' ∧ c ∉ punctuation ∧ c ≠ '"' := by
  have apart {d : Char} (hd : startsNumber d = false) : c ≠ d := by
    rintro rfl
    rw [hd] at h
    cases h
  have marks : punctuation.all (fun d => !startsNumber d) = true := rfl
  have hrange : 45 ≤ c.toNat ∧ c.toNat ≤ 57 := by
    rw [startsNumber, Bool.or_eq_true, beq_iff_eq] at h
    rcases h with rfl | h
    · decide
    · have := toNat_of_isDigit h
      omega
  have unmarked : c ∉ punctuation := fun hmem =>
    apart (by simpa using List.all_eq_true.mp marks c hmem) rfl
  refine ⟨apart (by decide), ?_, apart (by decide), unmarked, apart (by decide)⟩
  rw [isSeparator, isBlank_eq_false (by omega) (by omega), beq_false_of_ne (apart (by decide)),
    beq_false_of_ne (apart (by decide))]
  rfl

lemma tokensFrom_numeral {n : Int} (low : -2 ^ 63 ≤ n) (high : n < 2 ^ 63) (line : Nat)
    {rest : List Char} (stops : Stops rest) :
    tokensFrom line (numeral n ++ rest) = (tokensFrom line rest).map (⟨.int n, line⟩ :: ·) := by
  have hnumber := number?_numeral low high
  obtain ⟨c, ds, hn, hstarts, hds⟩ := numeral_eq_cons n
  obtain ⟨hnewline, hseparator, hcomment, hpunct, hquote⟩ := not_special_of_startsNumber hstarts
  have continues : ∀ d ∈ ds, continuesNumber d = true := fun d hd => by
    rw [continuesNumber, hds d hd, Bool.or_true]
  obtain ⟨htake, hdrop⟩ := takeWhile_append_of_ends continues stops.continuesNumber
  rw [hn] at hnumber
  rw [hn, List.cons_append, tokensFrom, if_neg hnewline, if_neg (Bool.eq_false_iff.mp hseparator),
    if_neg hcomment, if_neg (mt List.contains_iff_mem.mp hpunct), if_neg hquote, if_pos hstarts]
  simp only [htake, hdrop, hnumber]

/-! ## Strings -/

/-- What is written for a character is read as the character. -/
lemma lineBody_escaped (s rest : List Char) :
    ∃ shorter, lineBody (s.flatMap escaped ++ '"' :: rest) = .ok ⟨s, rest, shorter⟩ := by
  induction s with
  | nil => exact ⟨_, rfl⟩
  | cons c s ih =>
    obtain ⟨shorter, ih⟩ := ih
    rw [List.flatMap_cons, List.append_assoc]
    by_cases hquote : c = '"'
    · subst hquote
      exact ⟨_, by simp [escaped, lineBody, escape?, ih]; rfl⟩
    by_cases hslash : c = '\\'
    · subst hslash
      exact ⟨_, by simp [escaped, lineBody, escape?, ih]; rfl⟩
    by_cases hnewline : c = '\n'
    · subst hnewline
      exact ⟨_, by simp [escaped, lineBody, escape?, ih]; rfl⟩
    · have hitself : escaped c = [c] := by simp [escaped, hquote, hslash, hnewline]
      rw [hitself, List.singleton_append]
      exact ⟨_, by simp [lineBody, hslash, hnewline, ih]; rfl⟩

/-- No character is written with a quote in front. -/
lemma head_escaped (c : Char) : ∃ d ds, escaped c = d :: ds ∧ d ≠ '"' := by
  by_cases hmark : c = '"' ∨ c = '\\'
  · exact ⟨'\\', [c], by rw [escaped, if_pos hmark], by decide⟩
  · by_cases hnewline : c = '\n'
    · exact ⟨'\\', ['n'], by rw [escaped, if_neg hmark, if_pos hnewline], by decide⟩
    · exact ⟨c, [], by rw [escaped, if_neg hmark, if_neg hnewline], fun h => hmark (Or.inl h)⟩

/-- What is written for a string opens no block string, not even if the string is empty. -/
lemma quoted_escaped (s : List Char) {rest : List Char} (stops : Stops rest) :
    ∃ shorter, quoted (s.flatMap escaped ++ '"' :: rest) = .ok ⟨(s, 0), rest, shorter⟩ := by
  have inline : ∀ rest', s.flatMap escaped ++ '"' :: rest = '"' :: '"' :: rest' → False := by
    intro rest' heq
    cases s with
    | nil =>
      obtain ⟨-, rfl⟩ := List.cons.inj heq
      rcases stops '"' rfl with h | h
      · exact absurd h (by decide)
      · exact absurd h (by decide)
    | cons c s =>
      obtain ⟨d, ds, hd, hquote⟩ := head_escaped c
      rw [List.flatMap_cons, hd] at heq
      exact hquote (List.cons.inj heq).1
  obtain ⟨shorter, hbody⟩ := lineBody_escaped s rest
  refine ⟨shorter, ?_⟩
  rw [quoted, hbody]
  · rfl
  · exact inline

lemma tokensFrom_string (s : String) (line : Nat) {rest : List Char} (stops : Stops rest) :
    tokensFrom line ('"' :: (s.toList.flatMap escaped ++ '"' :: rest)) =
      (tokensFrom line rest).map (⟨.string s, line⟩ :: ·) := by
  obtain ⟨shorter, hquoted⟩ := quoted_escaped s.toList stops
  rw [tokensFrom, if_neg (by decide), if_neg (by decide), if_neg (by decide), if_neg (by decide),
    if_pos rfl]
  simp only [hquoted, String.ofList_toList, Nat.add_zero]

/-! ## Tokens -/

lemma Spells.tokensFrom {t : Token} {word : List Char} (spells : Spells t word) (line : Nat)
    {rest : List Char} (stops : Stops rest) :
    tokensFrom line (word ++ rest) = (tokensFrom line rest).map (⟨t, line⟩ :: ·) := by
  cases spells with
  | name h => exact tokensFrom_name h line stops.continuesName
  | string s =>
    rw [List.cons_append, List.append_assoc]
    exact tokensFrom_string s line stops
  | int low high => exact tokensFrom_numeral low high line stops
  | punct h => exact tokensFrom_punct h line rest

lemma Spaced.tokensFrom {ts : List Token} {cs : List Char} (spaced : Spaced ts cs) (line : Nat) :
    ∃ ls, tokensFrom line cs = .ok ls ∧ ls.map Lexeme.token = ts := by
  induction spaced generalizing line with
  | nil => exact ⟨[], tokensFrom_nil line, rfl⟩
  | @cons t ts word gap cs spells ignorable apart rest ih =>
    have stops : Stops (gap ++ cs) := by
      intro c hc
      cases gap with
      | cons d gap => exact ignorable.stops c hc
      | nil =>
        cases rest with
        | nil => cases hc
        | cons => exact absurd rfl (apart (List.cons_ne_nil _ _))
    obtain ⟨line', lexes⟩ := ignorable.lexes line
    obtain ⟨ls, hls, rfl⟩ := ih line'
    refine ⟨⟨t, line⟩ :: ls, ?_, rfl⟩
    rw [spells.tokensFrom line stops, lexes, hls]
    rfl

/-- However tokens are formatted, the text is read as these tokens. -/
theorem tokens_of_renders {ts : List Token} {text : String} (renders : Renders ts text) :
    ∃ ls, tokens text = .ok ls ∧ ls.map Lexeme.token = ts := by
  obtain ⟨lead, cs, ignorable, spaced, htext⟩ := renders
  obtain ⟨line', lexes⟩ := ignorable.lexes 1
  obtain ⟨ls, hls, rfl⟩ := spaced.tokensFrom line'
  refine ⟨ls, ?_, rfl⟩
  rw [tokens, htext, lexes, hls]
  rfl

/-- Tokens that can be written one by one can be written in a row, with anything ignorable behind
each of them. -/
theorem renders_with {gap : Token → List Char} (ignorable : ∀ t, Ignorable (gap t))
    (apart : ∀ t, gap t ≠ []) {words : List (Token × List Char)}
    (spells : ∀ x ∈ words, Spells x.1 x.2) :
    Renders (words.map Prod.fst) (String.ofList (words.flatMap fun x => x.2 ++ gap x.1)) := by
  have spaced : Spaced (words.map Prod.fst) (words.flatMap fun x => x.2 ++ gap x.1) := by
    induction words with
    | nil => exact .nil
    | cons x words ih =>
      rw [List.forall_mem_cons] at spells
      rw [List.map_cons, List.flatMap_cons, List.append_assoc]
      exact .cons spells.1 (ignorable x.1) (fun _ => apart x.1) (ih spells.2)
  exact ⟨[], _, .nil, spaced, String.toList_ofList⟩

end SchemaStack.Lexer
