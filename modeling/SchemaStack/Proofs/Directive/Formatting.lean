import SchemaStack.Project.Compilation
import SchemaStack.Proofs.Directive.Reordering
import SchemaStack.Proofs.Schema.Lines
import SchemaStack.Proofs.Schema.Rendering
/-!
# The formatting of a schema

A schema is compiled as its tokens say. Blanks, commas and comments, and the lines that tokens come
to stand on, are for the reader of the text and for the messages of faults.
-/

namespace SchemaStack

open Lexer (Renders)

namespace Pipeline

variable {c : BuildConfig} {p : Pipeline} {text text' : String}

lemma compile_of_sameTokens (hp : standard c = .ok p) {ls ls' : List Lexeme}
    (hls : Lexer.tokens text = .ok ls) (hls' : Lexer.tokens text' = .ok ls')
    (same : SameTokens ls ls') {d : Document} (compiled : p.compile text = .ok d) :
    p.compile text' = .ok d := by
  cases hparse : Schema.parse text with
  | error e => rw [compile, hparse] at compiled; cases compiled
  | ok s =>
    rw [compile_of_parse hparse] at compiled
    obtain ⟨s', hparse', hunplaced⟩ := Schema.exists_parse_of_sameTokens hls hls' same hparse
    rw [compile_of_parse hparse']
    have h : p.Compiles s.unplaced d :=
      (compiles_unplaced_iff hp).mpr ⟨Schema.check_of_parse hparse, compiled⟩
    rw [← hunplaced] at h
    exact ((compiles_unplaced_iff hp).mp h).2

end Pipeline

namespace Compilation

lemma toOption_compileText_of_sameTokens (c : BuildConfig) {text text' : String}
    {ls ls' : List Lexeme} (hls : Lexer.tokens text = .ok ls) (hls' : Lexer.tokens text' = .ok ls')
    (same : SameTokens ls ls') :
    (compileText c text).toOption = (compileText c text').toOption := by
  obtain ⟨p, hp⟩ := Pipeline.exists_standard c
  simp only [compileText, hp]
  refine Option.ext fun d => ?_
  rw [toOption_eq_some_iff, toOption_eq_some_iff]
  exact ⟨Pipeline.compile_of_sameTokens hp hls hls' same,
    Pipeline.compile_of_sameTokens hp hls' hls same.symm⟩

/-- However the tokens of a text are formatted, they are read as these tokens, and the text is
compiled to the same document or to none. -/
theorem formatting_keeps_document (ts : List Token) :
    (∀ text, Renders ts text → ∃ ls, Lexer.tokens text = .ok ls ∧ ls.map Lexeme.token = ts) ∧
      ∀ text text', Renders ts text → Renders ts text' →
        ∀ c, (compileText c text).toOption = (compileText c text').toOption := by
  refine ⟨fun text => Lexer.tokens_of_renders, fun text text' renders renders' c => ?_⟩
  obtain ⟨ls, hls, rfl⟩ := Lexer.tokens_of_renders renders
  obtain ⟨ls', hls', same⟩ := Lexer.tokens_of_renders renders'
  exact toOption_compileText_of_sameTokens c hls hls' same

/-- The tokens of a schema with one type and a description, as they are written. -/
def noteWords : List (Token × List Char) :=
  [(.string "A \"note\"\n", "\"A \\\"note\\\"\\n\"".toList), (.name "type", "type".toList),
    (.name "Note", "Note".toList), (.punct '@', ['@']), (.name "model", "model".toList),
    (.punct '\x7b', ['\x7b']), (.name "id", "id".toList), (.punct ':', [':']),
    (.name "ID", "ID".toList), (.punct '!', ['!']), (.punct '\x7d', ['\x7d'])]

def noteText (gap : Token → List Char) : String :=
  String.ofList (noteWords.flatMap fun x => x.2 ++ gap x.1)

/-- A comment and an empty line behind each mark, and nothing but separators behind a word. -/
def wideGap : Token → List Char
  | .punct _ => "# mark\n\n".toList
  | _ => [',', '\uFEFF', '\t']

lemma renders_noteText {gap : Token → List Char} (ignorable : ∀ t, Lexer.Ignorable (gap t))
    (apart : ∀ t, gap t ≠ []) : Renders (noteWords.map Prod.fst) (noteText gap) := by
  refine Lexer.renders_with ignorable apart ?_
  simp only [noteWords, List.forall_mem_cons]
  exact ⟨.string _, .name ⟨_, _, rfl, rfl, List.all_eq_true.mp rfl⟩,
    .name ⟨_, _, rfl, rfl, List.all_eq_true.mp rfl⟩, .punct (by decide),
    .name ⟨_, _, rfl, rfl, List.all_eq_true.mp rfl⟩, .punct (by decide),
    .name ⟨_, _, rfl, rfl, List.all_eq_true.mp rfl⟩, .punct (by decide),
    .name ⟨_, _, rfl, rfl, List.all_eq_true.mp rfl⟩, .punct (by decide), .punct (by decide),
    List.forall_mem_nil _⟩

theorem formatting_keeps_document_note :
    let tight := noteText fun _ => [' ']
    let wide := noteText wideGap
    Renders (noteWords.map Prod.fst) tight ∧ Renders (noteWords.map Prod.fst) wide ∧ tight ≠ wide ∧
      (∃ ls, Lexer.tokens wide = .ok ls ∧ ls.map Lexeme.token = noteWords.map Prod.fst) ∧
      ∃ d, compileText ⟨"notes", 5, 5, true, none⟩ tight = .ok d ∧
        compileText ⟨"notes", 5, 5, true, none⟩ wide = .ok d := by
  intro tight wide
  have renders : Renders (noteWords.map Prod.fst) tight :=
    renders_noteText (fun _ => .separator (by decide) .nil) fun _ => List.cons_ne_nil _ _
  have renders' : Renders (noteWords.map Prod.fst) wide := by
    refine renders_noteText (fun t => ?_) (fun t => ?_)
    · cases t with
      | punct c =>
        have unbroken : '\n' ∉ " mark".toList := by decide
        exact .comment unbroken (.separator (by decide) .nil)
      | _ => exact .separator (by decide) (.separator (by decide) (.separator (by decide) .nil))
    · cases t <;> exact List.cons_ne_nil _ _
  obtain ⟨read, agree⟩ := formatting_keeps_document (noteWords.map Prod.fst)
  have heval : (compileText ⟨"notes", 5, 5, true, none⟩ tight).toOption.isSome = true := by
    decide +kernel
  obtain ⟨d, hd⟩ := Option.isSome_iff_exists.mp heval
  have hd' := (agree tight wide renders renders' ⟨"notes", 5, 5, true, none⟩).symm.trans hd
  exact ⟨renders, renders', by decide +kernel, read wide renders', d, toOption_eq_some_iff.mp hd,
    toOption_eq_some_iff.mp hd'⟩

end Compilation

end SchemaStack
