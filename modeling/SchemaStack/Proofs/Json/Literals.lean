import SchemaStack.Json.Printer
import SchemaStack.Json.Reader
import Mathlib.Data.Nat.Digits.Defs
import Mathlib.Tactic.Common
/-!
# Strings and whole numbers as JSON texts

A string literal is read as the characters that were written, whatever they are, and a whole number
is read as itself wherever the character behind it could not continue it.
-/

namespace SchemaStack

namespace JsonText

variable {α : Type} {cs rest : List Char}

/-- The outcome is a reading of the value with these characters left. -/
def Reads (x : Option (Reading α cs)) (a : α) (rest : List Char) : Prop :=
  ∃ shorter, x = some ⟨a, rest, shorter⟩

lemma Reads.of_eq {x : Option (Reading α cs)} {r : Reading α cs} (h : x = some r) :
    Reads x r.value r.rest := ⟨r.shorter, h⟩

lemma Reads.map {x : Option (Reading α cs)} {a : α} (h : Reads x a rest) {β : Type} (f : α → β) :
    Reads (x.map (.map f)) (f a) rest := by
  obtain ⟨shorter, rfl⟩ := h
  exact .of_eq rfl

lemma Reads.cons {x : Option (Reading α cs)} {a : α} (h : Reads x a rest) (c : Char) :
    Reads (x.map (.cons (t := c))) a rest := by
  obtain ⟨shorter, rfl⟩ := h
  exact .of_eq rfl

/-! ## White space -/

/-- White space does not count. -/
lemma reads_next {blank : List Char} (spaces : ∀ c ∈ blank, isSpace c = true) {c : Char}
    (busy : isSpace c = false) (rest : List Char) :
    Reads (next? (blank ++ c :: rest)) c rest := by
  induction blank with
  | nil =>
    rw [List.nil_append, next?, busy]
    exact .of_eq rfl
  | cons b blank ih =>
    rw [List.forall_mem_cons] at spaces
    rw [List.cons_append, next?, if_pos spaces.1]
    exact (ih spaces.2).cons b

lemma reads_scalar_blank {blank : List Char} (spaces : ∀ c ∈ blank, isSpace c = true)
    {t : JsonText} (h : Reads (scalar cs) t rest) : Reads (scalar (blank ++ cs)) t rest := by
  induction blank with
  | nil => exact h
  | cons b blank ih =>
    rw [List.forall_mem_cons] at spaces
    rw [List.cons_append, scalar, if_pos spaces.1]
    exact (ih spaces.2).cons b

/-! ## Strings -/

/-- The unit that a character is written as. Control characters without an escape of their own are
written by their code. -/
def unitOf (c : Char) : JsonUnit :=
  if c.toNat < 0x20 ∧ c ∉ ['\x08', '\x0c', '\n', '\r', '\t'] then .escaped c.toNat else .char c

/-- How a character is written, and what that is read as. -/
inductive Spelled (c : Char) : Prop where
  | letter (e : Char) (spelling : Json.escapeChar c = ['\\', e])
      (means : simpleEscape? e = some c) (notCode : e ≠ 'u') (unit : unitOf c = .char c)
  | code (low : c.toNat < 0x20)
      (spelling : Json.escapeChar c = ['\\', 'u', '0', '0'] ++ Json.controlDigits c.toNat)
      (unit : unitOf c = .escaped c.toNat)
  | itself (spelling : Json.escapeChar c = [c]) (high : ¬ c.toNat < 0x20) (unquoted : c ≠ '"')
      (plain : c ≠ '\\') (unit : unitOf c = .char c)

lemma spelled (c : Char) : Spelled c := by
  by_cases hquote : c = '"'
  · subst hquote
    exact .letter '"' rfl rfl (by decide) rfl
  by_cases hslash : c = '\\'
  · subst hslash
    exact .letter '\\' rfl rfl (by decide) rfl
  by_cases hcontrol : c ∈ ['\x08', '\x0c', '\n', '\r', '\t']
  · simp only [List.mem_cons, List.not_mem_nil, or_false] at hcontrol
    rcases hcontrol with rfl | rfl | rfl | rfl | rfl
    · exact .letter 'b' rfl rfl (by decide) rfl
    · exact .letter 'f' rfl rfl (by decide) rfl
    · exact .letter 'n' rfl rfl (by decide) rfl
    · exact .letter 'r' rfl rfl (by decide) rfl
    · exact .letter 't' rfl rfl (by decide) rfl
  have hother := hcontrol
  simp only [List.mem_cons, List.not_mem_nil, or_false, not_or] at hother
  obtain ⟨hb, hf, hn, hr, ht⟩ := hother
  by_cases hlow : c.toNat < 0x20
  · refine .code hlow ?_ (if_pos ⟨hlow, hcontrol⟩)
    rw [Json.escapeChar, if_neg hquote, if_neg hslash, if_neg hb, if_neg hf, if_neg hn, if_neg hr,
      if_neg ht, if_pos hlow]
  · refine .itself ?_ hlow hquote hslash (if_neg fun h => hlow h.1)
    rw [Json.escapeChar, if_neg hquote, if_neg hslash, if_neg hb, if_neg hf, if_neg hn, if_neg hr,
      if_neg ht, if_neg hlow]

lemma hex4?_controlDigits {n : Nat} (low : n < 0x20) :
    hex4? '0' '0' (Nat.digitChar (n / 16)) (Nat.digitChar (n % 16)) = some n := by
  have all : ∀ n < 0x20,
      hex4? '0' '0' (Nat.digitChar (n / 16)) (Nat.digitChar (n % 16)) = some n := by decide
  exact all n low

/-- One character after the other, a string is read up to its closing quote. -/
lemma reads_stringBody (cs rest : List Char) :
    Reads (stringBody (cs.flatMap Json.escapeChar ++ '"' :: rest)) (cs.map unitOf) rest := by
  induction cs with
  | nil =>
    rw [List.flatMap_nil, List.nil_append, stringBody]
    exact .of_eq rfl
  | cons c cs ih =>
    obtain ⟨_, htail⟩ := ih
    rw [List.flatMap_cons, List.append_assoc, List.map_cons]
    cases spelled c with
    | letter e spelling means notCode unit =>
      rw [spelling, unit, List.cons_append, List.cons_append, List.nil_append, stringBody, means,
        htail]
      · exact .of_eq rfl
      · rintro a b c d rest rfl
        exact absurd rfl notCode
    | code low spelling unit =>
      rw [spelling, unit, Json.controlDigits]
      simp only [List.cons_append, List.nil_append]
      rw [stringBody, hex4?_controlDigits low, htail]
      exact .of_eq rfl
    | itself spelling high unquoted plain unit =>
      have hplain : ¬ (decide (c.toNat < 0x20) || c == '\\') = true := by simp [high, plain]
      rw [spelling, unit, List.cons_append, List.nil_append, stringBody, if_neg hplain, htail]
      · exact .of_eq rfl
      · exact unquoted
      · intro a b c d rest hc
        exact absurd hc plain
      · intro e rest hc
        exact absurd hc plain

lemma char_of_low {c : Char} (low : c.toNat < 0x20) :
    isLowSurrogate c.toNat = false ∧ isHighSurrogate c.toNat = false ∧
      Char.ofNat c.toNat = c := by
  refine ⟨?_, ?_, Char.ofNat_toNat c⟩
  · simp only [isLowSurrogate, Bool.and_eq_false_iff, decide_eq_false_iff_not]
    omega
  · simp only [isHighSurrogate, Bool.and_eq_false_iff, decide_eq_false_iff_not]
    omega

/-- No control character is a surrogate, so that none is taken for half of another one. -/
lemma chars?_map_unitOf (cs : List Char) : chars? (cs.map unitOf) = some cs := by
  induction cs with
  | nil => rfl
  | cons c cs ih =>
    rw [List.map_cons]
    cases spelled c with
    | letter e spelling means notCode unit =>
      rw [unit, chars?, ih]
      rfl
    | code low spelling unit =>
      obtain ⟨hlow, hhigh, hc⟩ := char_of_low low
      rw [unit, chars?.eq_def]
      simp only [hlow, hhigh, ih, hc, Bool.false_eq_true, if_false, Option.map_some]
    | itself spelling high unquoted plain unit =>
      rw [unit, chars?, ih]
      rfl

lemma string?_map_unitOf (s : String) : string? (s.toList.map unitOf) = some s := by
  rw [string?, chars?_map_unitOf, Option.map_some, String.ofList_toList]

/-! ## Whole numbers -/

/-- No character that could continue a number stands at the front. -/
def Ends (rest : List Char) : Prop :=
  ∀ c ∈ rest.head?, isDigit c = false ∧ c ≠ '.' ∧ c ≠ 'e' ∧ c ≠ 'E'

lemma Ends.cons {c : Char} (plain : isDigit c = false ∧ c ≠ '.' ∧ c ≠ 'e' ∧ c ≠ 'E')
    (rest : List Char) : Ends (c :: rest) := by
  intro d hd
  rw [List.head?_cons, Option.mem_some_iff] at hd
  exact hd ▸ plain

lemma isDigit_eq (c : Char) : isDigit c = c.isDigit := rfl

lemma isDigit_of_mem_toDigits {n : Nat} {c : Char} (h : c ∈ Nat.toDigits 10 n) :
    isDigit c = true := by
  rw [isDigit_eq]
  exact Nat.isDigit_of_mem_toDigits (by decide) (by decide) h

/-- Only zero is written with a zero in front. -/
lemma toDigits_eq_cons (n : Nat) :
    ∃ c ds, Nat.toDigits 10 n = c :: ds ∧ (c = '0' → ds = []) ∧ (c = '0' → n = 0) := by
  induction n using Nat.strong_induction_on with
  | _ n ih =>
    by_cases small : n < 10
    · exact ⟨n.digitChar, [], Nat.toDigits_of_lt_base small, fun _ => rfl,
        Nat.digitChar_eq_zero.1⟩
    · obtain ⟨c, ds, hds, -, positive⟩ := ih (n / 10) (by omega)
      have hc : c ≠ '0' := fun h => by have := positive h; omega
      refine ⟨c, ds ++ [(n % 10).digitChar], ?_, fun h => absurd h hc, fun h => absurd h hc⟩
      rw [Nat.toDigits_of_base_le (by decide) (by omega), hds, List.cons_append]

lemma takeWhile_ends (ends : Ends rest) : rest.takeWhile isDigit = [] := by
  cases rest with
  | nil => rfl
  | cons c rest => rw [List.takeWhile_cons, (ends c rfl).1, if_neg Bool.false_ne_true]

lemma dropWhile_ends (ends : Ends rest) : rest.dropWhile isDigit = rest := by
  cases rest with
  | nil => rfl
  | cons c rest => rw [List.dropWhile_cons, (ends c rfl).1, if_neg Bool.false_ne_true]

lemma fractionPart_ends (ends : Ends rest) : fractionPart rest = some ([], rest) := by
  unfold fractionPart
  split
  · exact absurd rfl (ends _ rfl).2.1
  · rfl

lemma exponentPart_ends (ends : Ends rest) : exponentPart rest = some (none, rest) := by
  unfold exponentPart
  split
  · exact absurd rfl (ends _ rfl).2.2.1
  · exact absurd rfl (ends _ rfl).2.2.2
  · rfl

/-- All digits are taken, and what ends a number is neither a fraction nor an exponent. -/
lemma reads_unsignedNumeral (negative : Bool) (n : Nat) (ends : Ends rest) :
    Reads (unsignedNumeral negative (Nat.toDigits 10 n ++ rest))
      ⟨negative, Nat.toDigits 10 n, [], none⟩ rest := by
  have digits : ∀ c ∈ Nat.toDigits 10 n, isDigit c = true := fun c => isDigit_of_mem_toDigits
  have taken : (Nat.toDigits 10 n ++ rest).takeWhile isDigit = Nat.toDigits 10 n := by
    rw [List.takeWhile_append_of_pos digits, takeWhile_ends ends, List.append_nil]
  have dropped : (Nat.toDigits 10 n ++ rest).dropWhile isDigit = rest := by
    rw [List.dropWhile_append_of_pos digits, dropWhile_ends ends]
  obtain ⟨c, ds, hds, single, -⟩ := toDigits_eq_cons n
  have hc : isDigit c = true := digits c (by rw [hds]; exact List.mem_cons_self)
  have lead : ¬ (c = '0' ∧ (ds ++ rest).head?.any isDigit = true) := by
    rintro ⟨hzero, hnext⟩
    rw [single hzero, List.nil_append, Option.any_eq_true] at hnext
    obtain ⟨d, hd, digit⟩ := hnext
    rw [(ends d hd).1] at digit
    cases digit
  rw [hds, List.cons_append] at taken dropped
  rw [hds, List.cons_append, unsignedNumeral, dif_pos hc, if_neg lead]
  split
  · next hf => simp [dropped, fractionPart_ends ends] at hf
  · next f hf =>
    rw [dropped, fractionPart_ends ends, Option.some.injEq] at hf
    subst hf
    split
    · next he => simp [exponentPart_ends ends] at he
    · next e he =>
      rw [exponentPart_ends ends, Option.some.injEq] at he
      subst he
      rw [← taken]
      exact .of_eq rfl

/-- What a whole number is written as. -/
def numeralOf (n : Int) : JsonNumeral := ⟨decide (n < 0), Nat.toDigits 10 n.natAbs, [], none⟩

lemma reads_numeral (n : Int) (ends : Ends rest) :
    Reads (numeral ((JsonNumber.whole n).text ++ rest)) (numeralOf n) rest := by
  have hread := reads_unsignedNumeral (decide (n < 0)) n.natAbs ends
  by_cases negative : n < 0
  · rw [decide_eq_true negative] at hread
    rw [JsonNumber.text, if_pos negative, List.cons_append, List.cons_append, List.nil_append,
      numeral, if_pos rfl, numeralOf, decide_eq_true negative]
    exact hread.cons '-'
  · obtain ⟨c, ds, hds, -, -⟩ := toDigits_eq_cons n.natAbs
    have hc : c ≠ '-' := by
      rintro rfl
      exact absurd (isDigit_of_mem_toDigits (n := n.natAbs) (by rw [hds]; exact List.mem_cons_self))
        (by decide)
    rw [decide_eq_false negative] at hread
    rw [JsonNumber.text, if_neg negative, List.nil_append, numeralOf, decide_eq_false negative]
    rw [hds, List.cons_append] at hread ⊢
    rw [numeral, if_neg hc]
    exact hread

/-- The character that a whole number begins with is that of no other kind of value. -/
lemma first_of_whole (n : Int) :
    ∃ c cs, (JsonNumber.whole n).text = c :: cs ∧ isSpace c = false ∧
      c ∉ ['\x7b', '[', ']', '"', 'n', 't', 'f'] := by
  by_cases negative : n < 0
  · rw [JsonNumber.text, if_pos negative]
    exact ⟨_, _, rfl, by decide, by decide⟩
  · obtain ⟨c, ds, hds, -, -⟩ := toDigits_eq_cons n.natAbs
    have digit : isDigit c = true :=
      isDigit_of_mem_toDigits (n := n.natAbs) (by rw [hds]; exact List.mem_cons_self)
    rw [JsonNumber.text, if_neg negative, List.nil_append, hds]
    refine ⟨c, ds, rfl, ?_, ?_⟩
    · rw [isSpace, ← Bool.not_eq_true]
      intro h
      simp only [Bool.or_eq_true, beq_iff_eq] at h
      rcases h with ((rfl | rfl) | rfl) | rfl <;> cases digit
    · intro h
      simp only [List.mem_cons, List.not_mem_nil, or_false] at h
      rcases h with rfl | rfl | rfl | rfl | rfl | rfl | rfl <;> cases digit

lemma reads_scalar_whole (n : Int) (ends : Ends rest) :
    Reads (scalar ((JsonNumber.whole n).text ++ rest)) (.number (numeralOf n)) rest := by
  obtain ⟨c, cs, hcs, busy, plain⟩ := first_of_whole n
  simp only [List.mem_cons, List.not_mem_nil, or_false, not_or] at plain
  obtain ⟨-, -, -, -, hn, ht, hf⟩ := plain
  have hread := (reads_numeral n ends).map JsonText.number
  rw [hcs, List.cons_append] at hread ⊢
  rw [scalar, if_neg (by rw [busy]; exact Bool.false_ne_true), if_neg hn, if_neg ht, if_neg hf]
  exact hread

end JsonText

namespace JsonNumeral

lemma natOfDigits_eq (n : Nat) (ds : List Char) :
    natOfDigits n ds = Nat.ofDigitChars 10 ds n := by
  rw [natOfDigits, Nat.ofDigitChars_eq_foldl]
  congr 1
  funext acc c
  rw [digitValue, Nat.mul_comm]

lemma le_natOfDigits (n : Nat) (ds : List Char) : n ≤ natOfDigits n ds := by
  induction ds generalizing n with
  | nil => exact Nat.le_refl n
  | cons c ds ih =>
    have := ih (n * 10 + digitValue c)
    rw [natOfDigits, List.foldl_cons]
    rw [natOfDigits] at this
    omega

/-- No digit is left out of a number of 64 bits. -/
lemma takeDigits_of_lt {n : Nat} {ds : List Char} (fits : natOfDigits n ds < Nat.pow 2 64) :
    takeDigits n ds = (natOfDigits n ds, 0) := by
  induction ds generalizing n with
  | nil => rfl
  | cons c ds ih =>
    rw [natOfDigits, List.foldl_cons] at fits ⊢
    have room := le_natOfDigits (n * 10 + digitValue c) ds
    rw [takeDigits, if_pos (Nat.lt_of_le_of_lt room fits)]
    exact ih fits

/-- A whole number between `-2^63` and `2^64 - 1`. -/
def Exact (n : Int) : Prop := -(2 : Int) ^ 63 ≤ n ∧ n < (2 : Int) ^ 64

lemma number?_numeralOf {n : Int} (exact : Exact n) :
    (JsonText.numeralOf n).number? = some (.whole n) := by
  obtain ⟨low, high⟩ := exact
  have hvalue : natOfDigits 0 (Nat.toDigits 10 n.natAbs) = n.natAbs := by
    rw [natOfDigits_eq, Nat.ofDigitChars_ten_toDigits]
  have htake : takeDigits 0 (JsonText.numeralOf n).whole = (n.natAbs, 0) := by
    rw [JsonText.numeralOf, takeDigits_of_lt (by rw [hvalue]; norm_num; omega), hvalue]
  have inRange : ¬ ((JsonText.numeralOf n).negative = true ∧
      (n.natAbs = 0 ∨ Nat.pow 2 63 < n.natAbs)) := by
    rintro ⟨negative, h⟩
    have below : n < 0 := of_decide_eq_true negative
    have : Nat.pow 2 63 = 2 ^ 63 := rfl
    omega
  have hsign : (if (JsonText.numeralOf n).negative then -(n.natAbs : Int) else n.natAbs) = n := by
    by_cases negative : n < 0
    · rw [JsonText.numeralOf, if_pos (decide_eq_true negative)]
      omega
    · rw [JsonText.numeralOf, if_neg (by simp [negative])]
      omega
  rw [number?, htake]
  show (if _ then some (JsonNumber.whole _) else _) = _
  rw [if_pos ⟨rfl, rfl, rfl, inRange⟩, hsign]

lemma takeDigits_lt {n : Nat} (fits : n < Nat.pow 2 64) (ds : List Char) :
    (takeDigits n ds).1 < Nat.pow 2 64 := by
  induction ds generalizing n with
  | nil => exact fits
  | cons c ds ih =>
    rw [takeDigits]
    split
    · next room => exact ih room
    · exact fits

/-- What is read as a whole number has 64 bits. -/
lemma exact_of_number? {t : JsonNumeral} {n : Int} (h : t.number? = some (.whole n)) :
    Exact n := by
  have fits := takeDigits_lt (Nat.pow_pos (by decide) : 0 < Nat.pow 2 64) t.whole
  have hword : Nat.pow 2 64 = 2 ^ 64 := rfl
  have hhalf : Nat.pow 2 63 = 2 ^ 63 := rfl
  rw [number?] at h
  split at h
  next m left hm =>
  rw [hm] at fits
  by_cases whole : left = 0 ∧ t.fraction = [] ∧ t.exponent = none ∧
      ¬(t.negative = true ∧ (m = 0 ∨ Nat.pow 2 63 < m))
  · simp only [if_pos whole, Option.some.injEq, JsonNumber.whole.injEq] at h
    obtain ⟨-, -, -, inRange⟩ := whole
    rw [Exact, ← h]
    split
    · next negative =>
      have bounded : ¬(m = 0 ∨ Nat.pow 2 63 < m) := fun out => inRange ⟨negative, out⟩
      omega
    · omega
  · simp only [if_neg whole] at h
    obtain ⟨x, -, hx⟩ := Option.map_eq_some_iff.1 h
    cases hx

end JsonNumeral

end SchemaStack
