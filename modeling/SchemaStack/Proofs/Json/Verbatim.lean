import SchemaStack.Proofs.Json.Values
import Mathlib.Data.Bool.AllAny
import Mathlib.Data.List.Basic
/-!
# Strings between bare quotes

What a text says that has quotes put around it but nothing escaped. Reading it undoes escapes that
are not meant as such, so the text may be read as another one; that one is never longer, and it
has no more backslashes. A text is read as itself exactly when nothing in it needs an escape.
-/

namespace SchemaStack

namespace JsonText

/-- A character that stands for itself in a string. -/
def Bare (c : Char) : Prop := c ≠ '"' ∧ c ≠ '\\' ∧ 0x20 ≤ c.toNat

instance (c : Char) : Decidable (Bare c) := inferInstanceAs (Decidable (_ ∧ _ ∧ _))

/-- The characters between the quotes of a string, and what they are read as. -/
inductive Spells : List Char → List JsonUnit → Prop
  | nil : Spells [] []
  | bare {c : Char} {cs : List Char} {us : List JsonUnit} (plain : Bare c) (tail : Spells cs us) :
    Spells (c :: cs) (.char c :: us)
  | letter {c : Char} (e : Char) {cs : List Char} {us : List JsonUnit} (tail : Spells cs us) :
    Spells ('\\' :: e :: cs) (.char c :: us)
  | code (n : Nat) (a b c d : Char) {cs : List Char} {us : List JsonUnit} (tail : Spells cs us) :
    Spells ('\\' :: 'u' :: a :: b :: c :: d :: cs) (.escaped n :: us)

/-- What is read of a string is spelled by the characters in front of the closing quote. -/
lemma exists_spells {cs : List Char} {r : Reading (List JsonUnit) cs}
    (h : stringBody cs = some r) : ∃ body, cs = body ++ '"' :: r.rest ∧ Spells body r.value := by
  fun_induction stringBody cs with
  | case1 => cases h
  | case2 rest =>
    cases h
    exact ⟨[], rfl, .nil⟩
  | case3 a b c d rest ih =>
    obtain ⟨n, _, h⟩ := Option.bind_eq_some_iff.mp h
    obtain ⟨r', hr', h⟩ := Option.bind_eq_some_iff.mp h
    cases h
    obtain ⟨body, hrest, spells⟩ := ih hr'
    exact ⟨_, congrArg (fun rest => '\\' :: 'u' :: a :: b :: c :: d :: rest) hrest,
      .code n a b c d spells⟩
  | case4 e rest _ ih =>
    obtain ⟨c, _, h⟩ := Option.bind_eq_some_iff.mp h
    obtain ⟨r', hr', h⟩ := Option.bind_eq_some_iff.mp h
    cases h
    obtain ⟨body, hrest, spells⟩ := ih hr'
    exact ⟨_, congrArg (fun rest => '\\' :: e :: rest) hrest, .letter e spells⟩
  | case5 => cases h
  | case6 c rest hquote _ _ hplain ih =>
    obtain ⟨r', hr', rfl⟩ := Option.map_eq_some_iff.mp h
    obtain ⟨body, hrest, spells⟩ := ih hr'
    have bare : Bare c := by
      simp only [Bool.or_eq_true, decide_eq_true_eq, beq_iff_eq, not_or, Nat.not_lt] at hplain
      exact ⟨hquote, hplain.2, hplain.1⟩
    exact ⟨_, congrArg (c :: ·) hrest, .bare bare spells⟩

/-! ## What reading adds -/

section Counting

variable {q : Char → Bool}

/-- Whether a unit may stand for a character of the kind. -/
def mayBe (q : Char → Bool) : JsonUnit → Bool
  | .char c => q c
  | .escaped _ => true

/-- Every escape begins with a backslash, so it adds nothing to characters of a kind to which the
backslash belongs. -/
lemma countP_units_le (slash : q '\\' = true) {cs : List Char} {us : List JsonUnit}
    (h : Spells cs us) : us.countP (mayBe q) ≤ cs.countP q := by
  induction h with
  | nil => exact Nat.le_refl 0
  | bare plain tail ih =>
    rw [List.countP_cons, List.countP_cons]
    exact Nat.add_le_add_right ih _
  | @letter c e cs us tail ih =>
    have hone : (if mayBe q (.char c) then 1 else 0) ≤ 1 := by split <;> omega
    rw [List.countP_cons, List.countP_cons_of_pos slash, List.countP_cons]
    omega
  | code n a b c d tail ih =>
    rw [List.countP_cons_of_pos rfl, List.countP_cons_of_pos slash]
    simp only [List.countP_cons]
    omega

/-- The characters of units are no more than the units, and two escapes may make one character. -/
lemma countP_chars_le (q : Char → Bool) {us : List JsonUnit} {cs : List Char}
    (h : chars? us = some cs) : cs.countP q ≤ us.countP (mayBe q) := by
  have one (c : Char) : (if q c then 1 else 0) ≤ 1 := by split <;> omega
  fun_induction chars? us generalizing cs with
  | case1 =>
    cases h
    exact Nat.le_refl 0
  | case2 c us ih =>
    obtain ⟨cs, hcs, rfl⟩ := Option.map_eq_some_iff.mp h
    rw [List.countP_cons, List.countP_cons]
    exact Nat.add_le_add_right (ih hcs) _
  | case3 => cases h
  | case4 n _ _ m us _ ih =>
    obtain ⟨cs, hcs, rfl⟩ := Option.map_eq_some_iff.mp h
    rw [List.countP_cons, List.countP_cons, List.countP_cons]
    exact Nat.add_le_add (Nat.le_add_right_of_le (ih hcs)) (one _)
  | case5 => cases h
  | case6 => cases h
  | case7 n us _ _ ih =>
    obtain ⟨cs, hcs, rfl⟩ := Option.map_eq_some_iff.mp h
    rw [List.countP_cons, List.countP_cons]
    exact Nat.add_le_add (ih hcs) (one _)

lemma length_units_le {cs : List Char} {us : List JsonUnit} (h : Spells cs us) :
    us.length ≤ cs.length := by
  induction h with
  | nil => exact Nat.le_refl 0
  | bare plain tail ih => exact Nat.succ_le_succ ih
  | letter e tail ih => exact Nat.succ_le_succ (Nat.le_succ_of_le ih)
  | code n a b c d tail ih =>
    simp only [List.length_cons]
    omega

/-- Only what has no escape has as many units as characters. -/
lemma bare_of_length_eq {cs : List Char} {us : List JsonUnit} (h : Spells cs us)
    (same : us.length = cs.length) : ∀ c ∈ cs, Bare c := by
  induction h with
  | nil => exact List.forall_mem_nil _
  | bare plain tail ih => exact List.forall_mem_cons.mpr ⟨plain, ih (Nat.succ.inj same)⟩
  | letter e tail ih =>
    have short := length_units_le tail
    simp only [List.length_cons] at same
    omega
  | code n a b c d tail ih =>
    have short := length_units_le tail
    simp only [List.length_cons] at same
    omega

end Counting

/-! ## Texts between bare quotes -/

lemma exists_stringBody_of_value {cs : List Char} {r : Reading JsonText ('"' :: cs)}
    (h : value ('"' :: cs) = some r) :
    ∃ body, stringBody cs = some body ∧ r.value = .string body.value ∧ r.rest = body.rest := by
  have first : next? ('"' :: cs) = some (.head '"' '"' cs) := rfl
  rw [value, first] at h
  simp only [Reading.head, reduceIte, Char.reduceEq] at h
  obtain ⟨body, hbody, rfl⟩ := Option.map_eq_some_iff.mp h
  exact ⟨body, hbody, rfl, rfl⟩

end JsonText

namespace Json

open JsonText

/-- A text with quotes put around it. -/
def quoted (s : String) : String := "\"" ++ s ++ "\""

lemma toList_quoted (s : String) : (quoted s).toList = '"' :: (s.toList ++ ['"']) := by
  simp [quoted]

/-- What stands between bare quotes is the whole string that is read, for the quote that ends the
string has nothing behind it. -/
lemma exists_spells_of_parse? {s t : String} (h : parse? (quoted s) = some (.string t)) :
    ∃ us, Spells s.toList us ∧ chars? us = some t.toList := by
  rw [parse?, toList_quoted] at h
  obtain ⟨tree, htree, hvalue⟩ := Option.bind_eq_some_iff.mp h
  obtain ⟨r, hr, htree⟩ := Option.bind_eq_some_iff.mp htree
  obtain ⟨body, hbody, hstring, hrest⟩ := exists_stringBody_of_value hr
  obtain ⟨cs, hsplit, spells⟩ := exists_spells hbody
  split at htree
  · rename_i hspaces
    obtain rfl := Option.some.inj htree
    rw [hstring] at hvalue
    obtain ⟨t', ht', heq⟩ := Option.map_eq_some_iff.mp hvalue
    obtain rfl := Json.string.inj heq
    obtain ⟨ts, hts, rfl⟩ := Option.map_eq_some_iff.mp ht'
    refine ⟨body.value, ?_, by rw [hts, String.toList_ofList]⟩
    rcases List.eq_nil_or_concat body.rest with hnil | ⟨front, last, hlast⟩
    · rw [hnil] at hsplit
      exact List.append_cancel_right hsplit ▸ spells
    -- the last character is the quote that was put there, and that is no space
    · rw [hlast, List.concat_eq_append, ← List.cons_append, ← List.append_assoc] at hsplit
      obtain ⟨_, hquote⟩ := List.append_inj' hsplit rfl
      rw [hrest, hlast, List.concat_eq_append, List.all_append, ← hquote] at hspaces
      simp [isSpace] at hspaces
  · cases htree

/-- A text between bare quotes is read as one that is no longer and has no more backslashes. -/
lemma countP_le_of_parse? {s t : String} (h : parse? (quoted s) = some (.string t))
    {q : Char → Bool} (slash : q '\\' = true) : t.toList.countP q ≤ s.toList.countP q := by
  obtain ⟨us, spells, hchars⟩ := exists_spells_of_parse? h
  exact Nat.le_trans (countP_chars_le q hchars) (countP_units_le slash spells)

lemma escapeChar_of_bare {c : Char} (h : Bare c) : escapeChar c = [c] := by
  have low : ∀ d ∈ ['\x08', '\x0c', '\n', '\r', '\t'], d.toNat < 0x20 :=
    List.all_iff_forall_prop.mp (by decide)
  have named : ∀ d ∈ ['\x08', '\x0c', '\n', '\r', '\t'], c ≠ d := by
    rintro d hd rfl
    exact Nat.not_lt.mpr h.2.2 (low c hd)
  simp only [List.forall_mem_cons] at named
  obtain ⟨hb, hf, hn, hr, ht, -⟩ := named
  rw [escapeChar, if_neg h.1, if_neg h.2.1, if_neg hb, if_neg hf, if_neg hn, if_neg hr, if_neg ht,
    if_neg (Nat.not_lt.mpr h.2.2)]

lemma pretty_of_bare {s : String} (bare : ∀ c ∈ s.toList, Bare c) :
    (Json.string s).pretty = quoted s := by
  have hplain : s.toList.flatMap escapeChar = s.toList :=
    (List.flatMap_congr fun c hc => escapeChar_of_bare (bare c hc)).trans (List.flatMap_singleton' _)
  rw [pretty, prettyChars, quote, hplain, ← toList_quoted, String.ofList_toList]

/-- Between bare quotes, a text is read as itself exactly when nothing in it needs an escape. -/
theorem parse?_quoted_iff {s : String} :
    parse? (quoted s) = some (.string s) ↔ ∀ c ∈ s.toList, Bare c := by
  constructor
  · intro h
    obtain ⟨us, spells, hchars⟩ := exists_spells_of_parse? h
    have hlength : s.toList.length ≤ us.length := by
      have hle := countP_chars_le (fun _ => true) hchars
      rw [List.countP_true] at hle
      exact Nat.le_trans hle List.countP_le_length
    exact bare_of_length_eq spells (Nat.le_antisymm (length_units_le spells) hlength)
  · intro bare
    rw [← pretty_of_bare bare]
    exact parse?_pretty (.string maxDepth s)

end Json

end SchemaStack
