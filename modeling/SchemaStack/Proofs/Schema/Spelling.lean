import SchemaStack.Schema.Lexer
import SchemaStack.Proofs.Fallible
import Mathlib.Tactic.Common
/-!
# Spelling names

A name that the lexer reads is spelled with the characters of a name, and a text that is spelled
so is read as that name wherever it stands, if the character behind it could not continue it.
-/

namespace SchemaStack.Lexer

/-- A text that is spelled as a name. -/
def IsName (n : String) : Prop :=
  ∃ c cs, n.toList = c :: cs ∧ startsName c = true ∧ ∀ d ∈ cs, continuesName d = true

/-! ## Reading single characters -/

lemma tokensFrom_nil (line : Nat) : tokensFrom line [] = .ok [] := by rw [tokensFrom]

lemma tokensFrom_newline (line : Nat) (cs : List Char) :
    tokensFrom line ('\n' :: cs) = tokensFrom (line + 1) cs := by
  rw [tokensFrom, if_pos rfl]

lemma tokensFrom_space (line : Nat) (cs : List Char) :
    tokensFrom line (' ' :: cs) = tokensFrom line cs := by
  rw [tokensFrom, if_neg (by decide), if_pos (by decide)]

/-- Marks are neither separators nor the start of a comment. -/
lemma tokensFrom_punct {c : Char} (h : c ∈ punctuation) (line : Nat) (cs : List Char) :
    tokensFrom line (c :: cs) = (tokensFrom line cs).map (⟨.punct c, line⟩ :: ·) := by
  have plain : punctuation.all fun c => c != '\n' && !isSeparator c && c != '#' := by decide
  have hplain := List.all_eq_true.mp plain c h
  simp only [Bool.and_eq_true, bne_iff_ne, Bool.not_eq_true'] at hplain
  obtain ⟨⟨hnewline, hseparator⟩, hcomment⟩ := hplain
  rw [tokensFrom, if_neg hnewline, if_neg (Bool.eq_false_iff.mp hseparator), if_neg hcomment,
    if_pos (List.contains_iff_mem.mpr h)]

lemma toNat_of_startsName {c : Char} (h : startsName c = true) :
    65 ≤ c.toNat ∧ c.toNat ≤ 122 := by
  simp only [startsName, isLetter, Bool.or_eq_true, Bool.and_eq_true, beq_iff_eq,
    decide_eq_true_eq] at h
  rcases h with rfl | ⟨hlow, hhigh⟩ | ⟨hlow, hhigh⟩
  · decide
  · have h1 : 97 ≤ c.toNat := hlow
    have h2 : c.toNat ≤ 122 := hhigh
    omega
  · have h1 : 65 ≤ c.toNat := hlow
    have h2 : c.toNat ≤ 90 := hhigh
    omega

lemma isBlank_eq_false {c : Char} (low : 33 ≤ c.toNat) (high : c.toNat ≤ 132) :
    Text.isBlank c = false := by
  simp only [Text.isBlank, Text.inRanges, Text.blankRanges, List.any_cons, List.any_nil,
    Bool.or_eq_false_iff, Bool.and_eq_false_iff, decide_eq_false_iff_not, and_true]
  omega

lemma isDigit_eq_false {c : Char} (low : 58 ≤ c.toNat) : isDigit c = false := by
  rw [isDigit, Bool.and_eq_false_iff]
  refine Or.inr (decide_eq_false fun h => ?_)
  have hnine : c.toNat ≤ 57 := h
  omega

/-- The first character of a name starts nothing else. -/
lemma not_special {c : Char} (h : startsName c = true) :
    c ≠ '\n' ∧ isSeparator c = false ∧ c ≠ '#' ∧ c ∉ punctuation ∧ c ≠ '"' ∧
      startsNumber c = false := by
  obtain ⟨hlow, hhigh⟩ := toNat_of_startsName h
  have apart {d : Char} (hd : startsName d = false) : c ≠ d := by
    rintro rfl
    rw [hd] at h
    cases h
  have marks : ∀ d ∈ punctuation, startsName d = false := by
    have all : punctuation.all fun d => !startsName d := by decide
    intro d hd
    simpa using List.all_eq_true.mp all d hd
  refine ⟨apart (by decide), ?_, apart (by decide), fun hmem => apart (marks c hmem) rfl,
    apart (by decide), ?_⟩
  · rw [isSeparator, isBlank_eq_false (by omega) (by omega), beq_false_of_ne (apart (by decide)),
      beq_false_of_ne (apart (by decide))]
    rfl
  · rw [startsNumber, isDigit_eq_false (by omega), beq_false_of_ne (apart (by decide))]
    rfl

/-- Characters of one sort in front of a text that does not go on with that sort. -/
lemma takeWhile_append_of_ends {p : Char → Bool} {cs rest : List Char} (all : ∀ c ∈ cs, p c = true)
    (ends : ∀ c ∈ rest.head?, p c = false) :
    (cs ++ rest).takeWhile p = cs ∧ (cs ++ rest).dropWhile p = rest := by
  rw [List.takeWhile_append_of_pos all, List.dropWhile_append_of_pos all]
  cases rest with
  | nil => exact ⟨List.append_nil cs, rfl⟩
  | cons c rest =>
    have hc : ¬ p c = true := by rw [ends c rfl]; exact Bool.false_ne_true
    rw [List.takeWhile_cons_of_neg hc, List.dropWhile_cons_of_neg hc]
    exact ⟨List.append_nil cs, rfl⟩

lemma tokensFrom_name {n : String} (h : IsName n) (line : Nat) {rest : List Char}
    (ends : ∀ c ∈ rest.head?, continuesName c = false) :
    tokensFrom line (n.toList ++ rest) =
      (tokensFrom line rest).map (⟨.name n, line⟩ :: ·) := by
  obtain ⟨d, ds, hn, hstarts, hds⟩ := h
  obtain ⟨hnewline, hseparator, hcomment, hpunct, hquote, hnumber⟩ := not_special hstarts
  obtain ⟨htake, hdrop⟩ := takeWhile_append_of_ends hds ends
  have hname : String.ofList (d :: ds) = n := by rw [← hn, String.ofList_toList]
  rw [hn, List.cons_append, tokensFrom, if_neg hnewline, if_neg (Bool.eq_false_iff.mp hseparator),
    if_neg hcomment, if_neg (mt List.contains_iff_mem.mp hpunct), if_neg hquote,
    if_neg (Bool.eq_false_iff.mp hnumber), if_pos hstarts]
  simp only [htake, hdrop, hname]

/-! ## Reading whole texts -/

/-- The characters are read as these tokens, whatever follows them, and what follows starts on
line `line'`. -/
def Lexes (line : Nat) (cs : List Char) (line' : Nat) (ts : List Lexeme) : Prop :=
  ∀ rest, tokensFrom line (cs ++ rest) = (tokensFrom line' rest).map (ts ++ ·)

namespace Lexes

variable {line line' line'' : Nat} {cs cs' : List Char} {ts ts' : List Lexeme}

lemma nil (line : Nat) : Lexes line [] line [] := by
  intro rest
  cases h : tokensFrom line rest with
  | error e => exact h
  | ok ts => exact h

/-- Texts that are read one by one can be read together. -/
lemma append (h : Lexes line cs line' ts) (h' : Lexes line' cs' line'' ts') :
    Lexes line (cs ++ cs') line'' (ts ++ ts') := by
  intro rest
  rw [List.append_assoc, h, h', map_map]
  simp only [List.append_assoc]

lemma newline (h : Lexes (line + 1) cs line' ts) : Lexes line ('\n' :: cs) line' ts := by
  intro rest
  rw [List.cons_append, tokensFrom_newline, h]

lemma space (h : Lexes line cs line' ts) : Lexes line (' ' :: cs) line' ts := by
  intro rest
  rw [List.cons_append, tokensFrom_space, h]

lemma punct {c : Char} (hc : c ∈ punctuation) (h : Lexes line cs line' ts) :
    Lexes line (c :: cs) line' (⟨.punct c, line⟩ :: ts) := by
  intro rest
  rw [List.cons_append, tokensFrom_punct hc, h, map_map]
  rfl

lemma name {n : String} (hn : IsName n) {c : Char} (hc : continuesName c = false)
    (h : Lexes line (c :: cs) line' ts) :
    Lexes line (n.toList ++ c :: cs) line' (⟨.name n, line⟩ :: ts) := by
  intro rest
  have ends : ∀ d ∈ (c :: (cs ++ rest)).head?, continuesName d = false := by
    simpa using hc
  rw [List.append_assoc, List.cons_append, tokensFrom_name hn line ends, ← List.cons_append, h,
    map_map]
  rfl

end Lexes

/-! ## The names that are read -/

/-- Every name among the tokens is spelled as one. -/
def Spelled (ts : List Lexeme) : Prop := ∀ l ∈ ts, ∀ n, l.token = .name n → IsName n

lemma spelled_nil : Spelled [] := by
  intro l hl
  cases hl

lemma spelled_cons {l : Lexeme} {ts : List Lexeme} :
    Spelled (l :: ts) ↔ (∀ n, l.token = .name n → IsName n) ∧ Spelled ts := List.forall_mem_cons

lemma number?_ne_name {text : List Char} {t : Token} (h : number? text = some t) (n : String) :
    t ≠ .name n := by
  rintro rfl
  unfold number? at h
  split at h
  split at h
  · simp [float?] at h
  · simp [int?] at h

lemma isName_takeWhile {c : Char} (h : startsName c = true) (cs : List Char) :
    IsName (String.ofList (c :: cs.takeWhile continuesName)) :=
  ⟨c, _, String.toList_ofList, h, List.all_eq_true.mp List.all_takeWhile⟩

/-- The lexer puts a token in front only if it is no name or is spelled as one. -/
lemma spelled_of_map {t : Token} {line : Nat} {x : Except SchemaError (List Lexeme)}
    {ts : List Lexeme} (ih : ∀ {ts}, x = .ok ts → Spelled ts) (ht : ∀ n, t = .name n → IsName n)
    (h : x.map (⟨t, line⟩ :: ·) = .ok ts) : Spelled ts := by
  obtain ⟨ts, hts, rfl⟩ := map_eq_ok h
  exact spelled_cons.mpr ⟨ht, ih hts⟩

/-- Every name that is read is spelled as one. -/
lemma spelled_of_tokensFrom {line : Nat} {cs : List Char} {ts : List Lexeme}
    (h : tokensFrom line cs = .ok ts) : Spelled ts := by
  fun_induction tokensFrom line cs generalizing ts with
  | case1 =>
    cases h
    exact spelled_nil
  | case2 _ _ ih => exact ih h
  | case3 _ _ _ _ _ ih => exact ih h
  | case4 _ _ _ _ ih => exact ih h
  | case5 _ _ _ _ _ _ _ ih => exact spelled_of_map ih (fun _ ht => by cases ht) h
  | case6 => cases h
  | case7 _ _ _ _ _ _ _ _ ih => exact spelled_of_map ih (fun _ ht => by cases ht) h
  | case8 => cases h
  | case9 =>
    rename_i hnumber ih
    exact spelled_of_map ih (fun n ht => absurd ht (number?_ne_name hnumber n)) h
  | case10 =>
    rename_i hstarts _ ih
    refine spelled_of_map ih (fun n ht => ?_) h
    cases ht
    exact isName_takeWhile hstarts _
  | case11 => cases h

end SchemaStack.Lexer
