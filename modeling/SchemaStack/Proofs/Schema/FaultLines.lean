import SchemaStack.Proofs.Schema.Positions
import SchemaStack.Proofs.Schema.Origins
import SchemaStack.Proofs.Schema.Documents
import SchemaStack.Proofs.Schema.Blame
/-!
# The lines of faults of the text

Every refusal names a line of the text. The lexer is on some line of the text wherever it stops.
A step of the parser that is given tokens on some lines stops on one of these lines, or leaves
tokens on these lines for the step behind it; the line of the last token, on which an early end is
reported, is one of them too. What the check of a schema complains about stands on the line of one
of the tokens.
-/

namespace SchemaStack

/-- The refusal names one of the lines. -/
def SchemaError.On (lines : Nat → Prop) (e : SchemaError) : Prop :=
  ∃ line, e.line = some line ∧ lines line

lemma Fault.onLine_on {lines : Nat → Prop} (f : Fault) {line : Nat} (h : lines line) :
    (f.onLine line).On lines := ⟨line, rfl, h⟩

namespace Parser

/-- Tokens on these lines. -/
def Within (lines : Nat → Prop) (ts : List Lexeme) : Prop := ∀ l ∈ ts, lines l.line

/-- A refusal on one of the lines, or a result that leaves tokens on these lines. -/
abbrev Keeps {α : Type} (lines : Nat → Prop) (left : α → List Lexeme) :
    Except SchemaError α → Prop :=
  Outcome (SchemaError.On lines) fun a => Within lines (left a)

variable {lines : Nat → Prop} {α β : Type} {final : Nat} {ts : List Lexeme}

lemma within_tail {l : Lexeme} (h : Within lines (l :: ts)) : Within lines ts :=
  (List.forall_mem_cons.mp h).2

lemma line_of_within {l : Lexeme} (h : Within lines (l :: ts)) : lines l.line :=
  (List.forall_mem_cons.mp h).1

/-- A fault at a token points to its line, and one at the end of the text to the last line. -/
lemma line_lineOf (hfinal : lines final) (h : Within lines ts) : lines (lineOf final ts) := by
  cases ts with
  | nil => exact hfinal
  | cons l ts => exact line_of_within h

lemma line_lastLine (first : lines 1) (h : Within lines ts) : lines (lastLine ts) := by
  rw [lastLine]
  cases hlast : ts.getLast? with
  | none => exact first
  | some l => exact h l (List.mem_of_getLast? hlast)

lemma keeps_fail (f : SyntaxFault) {line : Nat} {left : α → List Lexeme} (h : lines line) :
    Keeps lines left (fail f line) := Fault.onLine_on _ h

/-! ## Single tokens -/

lemma within_mark {c : Char} {m : Reading Unit ts} (hmark : mark? c ts = some m)
    (h : Within lines ts) : Within lines m.rest := by
  cases ts with
  | nil => cases hmark
  | cons l ts =>
    rw [mark?] at hmark
    split at hmark
    · cases hmark
      exact within_tail h
    · cases hmark

/-- Taking tokens off the front leaves tokens on the same lines. -/
lemma within_description (h : Within lines ts) : Within lines (description ts).rest := by
  rcases rest_description_cases ts with ⟨s, line, hts⟩ | hts
  · rw [hts] at h
    exact within_tail h
  · rwa [hts]

section Steps

variable (hfinal : lines final)
include hfinal

lemma keeps_punct (c : Char) (h : Within lines ts) :
    Keeps lines Reading.rest (punct final c ts) := by
  cases ts with
  | nil => exact keeps_fail _ hfinal
  | cons l ts =>
    rw [punct]
    split
    · exact within_tail h
    · exact keeps_fail _ (line_of_within h)

lemma keeps_name (h : Within lines ts) : Keeps lines Reading.rest (name final ts) := by
  cases ts with
  | nil => exact keeps_fail _ hfinal
  | cons l ts =>
    rw [name]
    split
    · exact within_tail h
    · exact keeps_fail _ (line_of_within h)

omit hfinal in
/-- A loop keeps to the lines if its items do, at whatever tokens they start. -/
lemma keeps_upTo {close : Char} {item : Step α}
    (hitem : ∀ {ts}, Within lines ts → Keeps lines Reading.rest (item ts)) (h : Within lines ts) :
    Keeps lines Reading.rest (upTo close item ts) := by
  fun_induction upTo close item ts with
  | case1 ts m hmark => exact within_mark hmark h
  | case2 ts _ e he => exact (hitem h).error he
  | case3 ts _ a ha ih => exact outcome_map (ih ((hitem h).ok ha)) fun _ => id

/-! ## Types and values -/

omit hfinal in
lemma within_withBang {r : Reading TypeRef ts} (h : Within lines r.rest) :
    Within lines (withBang r).rest := by
  obtain ⟨t, rest, shorter⟩ := r
  cases rest with
  | nil => exact h
  | cons l rest =>
    rw [withBang]
    split
    · exact within_tail h
    · exact h

lemma keeps_typeRef (depth : Nat) (h : Within lines ts) :
    Keeps lines Reading.rest (typeRef final depth ts) := by
  have keeps_named {ts : List Lexeme} (h : Within lines ts) :
      Keeps lines Reading.rest ((name final ts).map fun n => withBang (n.map .named)) :=
    outcome_map (keeps_name hfinal h) fun n hn => within_withBang (r := n.map .named) hn
  induction depth generalizing ts with
  | zero =>
    cases ts with
    | nil => exact keeps_fail _ hfinal
    | cons l ts =>
      rw [typeRef]
      split
      · exact keeps_fail _ (line_of_within h)
      · exact keeps_named h
  | succ depth ih =>
    cases ts with
    | nil => exact keeps_fail _ hfinal
    | cons l ts =>
      rw [typeRef]
      split
      · refine outcome_bind (ih (within_tail h)) fun item hitem => ?_
        refine outcome_bind (keeps_punct hfinal ']' hitem) fun close hclose => ?_
        exact within_withBang (r := (item.after (close.map fun _ => .list item.value)).cons) hclose
      · exact keeps_named h

lemma keeps_entry {value : Step Literal}
    (hvalue : ∀ {ts}, Within lines ts → Keeps lines Reading.rest (value ts))
    (h : Within lines ts) : Keeps lines Reading.rest (entry final value ts) := by
  refine outcome_bind (keeps_name hfinal h) fun key hkey => ?_
  refine outcome_bind (keeps_punct hfinal ':' hkey) fun colon hcolon => ?_
  exact outcome_bind (hvalue hcolon) fun _ => id

/-- By induction on the levels of nesting that are left. -/
lemma keeps_literal (depth : Nat) (h : Within lines ts) :
    Keeps lines Reading.rest (literal final depth ts) := by
  induction depth generalizing ts with
  | zero =>
    rw [literal]
    exact keeps_fail _ (line_lineOf hfinal h)
  | succ depth ih =>
    cases ts with
    | nil => exact keeps_fail _ hfinal
    | cons l ts =>
      have hts := within_tail h
      rw [literal]
      split
      · exact hts
      · exact hts
      · exact hts
      · exact hts
      · exact outcome_map (keeps_upTo ih hts) fun _ => id
      · exact outcome_map (keeps_upTo (keeps_entry hfinal ih) hts) fun _ => id
      · exact keeps_fail _ (line_of_within h)

/-! ## Directives -/

lemma keeps_arguments {directive : String} {acc : Entries Literal} (h : Within lines ts) :
    Keeps lines Reading.rest (arguments final directive acc ts) := by
  have keeps_argument {ts : List Lexeme} (h : Within lines ts) :
      Keeps lines Reading.rest (entry final (literal final Schema.maxNesting) ts) :=
    keeps_entry hfinal (keeps_literal hfinal Schema.maxNesting) h
  fun_induction arguments final directive acc ts with
  | case1 acc ts m hmark => exact within_mark hmark h
  | case2 acc ts _ e he => exact (keeps_argument h).error he
  | case3 acc ts _ r hr => exact keeps_fail _ (line_lineOf hfinal h)
  | case4 acc ts _ r hr _ ih => exact outcome_map (ih ((keeps_argument h).ok hr)) fun _ => id

lemma keeps_directive (line : Nat) (h : Within lines ts) :
    Keeps lines Reading.rest (directive final line ts) := by
  refine outcome_bind (keeps_name hfinal h) fun n hn => ?_
  split
  · exact hn
  · rename_i m hmark
    exact outcome_bind (keeps_arguments hfinal (within_mark hmark hn)) fun _ => id

lemma keeps_directives (h : Within lines ts) :
    Keeps lines Trailing.rest (directives final ts) := by
  fun_induction directives final ts with
  | case1 ts => exact h
  | case2 ts m hmark e he => exact (keeps_directive hfinal _ (within_mark hmark h)).error he
  | case3 ts m hmark d hd ih =>
    have hrest := (keeps_directive hfinal _ (within_mark hmark h)).ok hd
    exact outcome_map (ih hrest) fun _ => id

/-! ## Definitions -/

lemma keeps_field (type : String) (h : Within lines ts) :
    Keeps lines Reading.rest (field final type ts) := by
  have hbody := within_description h
  refine outcome_map (outcome_bind (keeps_name hfinal hbody) fun n hn => ?_) fun _ => id
  split
  · exact keeps_fail _ (line_lineOf hfinal hbody)
  · refine outcome_bind (keeps_punct hfinal ':' hn) fun colon hcolon => ?_
    refine outcome_bind (keeps_typeRef hfinal _ hcolon) fun t ht => ?_
    exact outcome_bind (keeps_directives hfinal ht) fun _ => id

lemma keeps_enumValue (h : Within lines ts) : Keeps lines Reading.rest (enumValue final ts) :=
  outcome_map (keeps_name hfinal (within_description h)) fun _ => id

lemma keeps_object (line : Nat) (h : Within lines ts) :
    Keeps lines Reading.rest (object final line ts) := by
  refine outcome_bind (keeps_name hfinal h) fun n hn => ?_
  split
  · exact keeps_fail _ (line_lineOf hfinal hn)
  · refine outcome_bind (keeps_directives hfinal hn) fun ds hds => ?_
    refine outcome_bind (keeps_punct hfinal '{' hds) fun brace hbrace => ?_
    exact outcome_bind (keeps_upTo (keeps_field hfinal n.value) hbrace) fun _ => id

lemma keeps_enum (line : Nat) (h : Within lines ts) :
    Keeps lines Reading.rest (enum final line ts) := by
  refine outcome_bind (keeps_name hfinal h) fun n hn => ?_
  split
  · exact keeps_fail _ (line_lineOf hfinal hn)
  · refine outcome_bind (keeps_punct hfinal '{' hn) fun brace hbrace => ?_
    exact outcome_bind (keeps_upTo (keeps_enumValue hfinal) hbrace) fun _ => id

lemma keeps_definition (h : Within lines ts) :
    Keeps lines Reading.rest (definition final ts) := by
  refine outcome_bind (keeps_name hfinal h) fun keyword hkeyword => ?_
  have hline := line_lineOf hfinal h
  dsimp only
  split
  · exact outcome_bind (keeps_object hfinal _ hkeyword) fun _ => id
  · split
    · exact outcome_bind (keeps_enum hfinal _ hkeyword) fun _ => id
    · split
      · exact keeps_fail _ hline
      · exact keeps_fail _ hline

/-- Definitions are taken off one after another, each with its description. -/
lemma keeps_definitions (h : Within lines ts) :
    Keeps lines (fun _ => []) (definitions final ts) := by
  have nothing : Within lines [] := fun l hl => absurd hl List.not_mem_nil
  fun_induction definitions final ts with
  | case1 => exact nothing
  | case2 ts _ e he => exact (keeps_definition hfinal (within_description h)).error he
  | case3 ts _ d hd ih =>
    have hrest := (keeps_definition hfinal (within_description h)).ok hd
    exact outcome_map (ih hrest) fun _ _ => nothing

end Steps

end Parser

namespace Schema

variable {lines : Nat → Prop}

lemma on_of_ofTokens_error {ts : List Lexeme} (first : lines 1) (h : Parser.Within lines ts)
    {e : SchemaError} (herror : Schema.ofTokens ts = .error e) : e.On lines := by
  have keeps := Parser.keeps_definitions (Parser.line_lastLine first h) h
  rwa [map_eq_error herror] at keeps

/-- Tokens with any names on these lines. -/
def onLines (lines : Nat → Prop) : Source := ⟨fun _ => True, lines⟩

/-- Whatever is to blame stands on the line of a token. -/
lemma Blames.line_of_from {s : Schema} {f : ValidityFault} {line : Nat} (h : s.Blames f line)
    (hs : s.From (onLines lines)) : lines line := by
  have definition : ∀ d ∈ s.definitions, lines d.line := by
    intro d hd
    have hfrom := hs d hd
    cases d with
    | object o => exact hfrom.line
    | enum e => exact hfrom.line
  cases h with
  | reservedName mem => exact definition _ mem
  | builtinName mem => exact definition _ mem
  | duplicateType split => exact definition _ (split ▸ by simp)
  | emptyEnum mem => exact (hs.enums _ mem).line
  | emptyType mem => exact (hs.objects _ mem).line
  | duplicateField mem split => exact ((hs.objects _ mem).fields _ (split ▸ by simp)).line
  | unknownReference mem field => exact ((hs.objects _ mem).fields _ field).line

lemma from_of_tokens {text : String} {ts : List Lexeme} (h : Lexer.tokens text = .ok ts) :
    ∀ l ∈ ts, l.From (onLines (Lexer.LinesOf 1 text.toList)) := fun l hl =>
  ⟨Lexer.linesOf_of_laid (Lexer.laid_of_tokens h) l hl, fun _ _ => trivial⟩

/-- A text that is refused is refused on one of its lines, and otherwise everything that is read
stands on them. -/
theorem outcome_parse (text : String) :
    Outcome (SchemaError.On (Lexer.LinesOf 1 text.toList))
      (Schema.From (onLines (Lexer.LinesOf 1 text.toList))) (Schema.parse text) := by
  have first : Lexer.LinesOf 1 text.toList 1 := ⟨Nat.le_refl _, Nat.le_add_right _ _⟩
  rw [Schema.parse]
  cases htokens : Lexer.tokens text with
  | error e => exact Lexer.linesOf_of_error htokens
  | ok ts =>
    have hts := Lexer.linesOf_of_laid (Lexer.laid_of_tokens htokens)
    rw [ok_bind]
    cases hparsed : Schema.ofTokens ts with
    | error e => exact on_of_ofTokens_error first hts hparsed
    | ok s =>
      have hs := from_of_ofTokens hparsed (from_of_tokens htokens)
      rw [ok_bind]
      cases hcheck : s.check with
      | error e =>
        obtain ⟨f, line, rfl, blames⟩ := blamed_of_check hcheck
        exact Fault.onLine_on _ (blames.line_of_from hs)
      | ok u => exact hs

end Schema

end SchemaStack
