import SchemaStack.Schema.Printer
import SchemaStack.Schema.Reader
import SchemaStack.Proofs.Schema.Documents
import SchemaStack.Proofs.Schema.Legibility
import SchemaStack.Proofs.Schema.Validity
/-!
# Printed schemas

A schema is printed without its directives, with a line for each field and enum value. The printed
text is carried through the lexer character by character, which gives the tokens with their lines;
these are a document for the schema without its directives, on the lines of the printed text. What
a text is read as can always be printed in this way, so what is printed for it is read back.
-/

namespace SchemaStack

open Grammar Lexer

/-! ## Directives and lines -/

section Annotations

variable (mark : List Directive → List Directive) (place : Nat → Nat)

def Field.annotate (f : Field) : Field :=
  { f with directives := mark f.directives, line := place f.line }

def ObjectType.annotate (o : ObjectType) : ObjectType :=
  { o with
    directives := mark o.directives
    fields := o.fields.map (Field.annotate mark place)
    line := place o.line }

def EnumType.annotate (e : EnumType) : EnumType := { e with line := place e.line }

def Definition.annotate : Definition → Definition
  | .object o => .object (o.annotate mark place)
  | .enum e => .enum (e.annotate place)

/-- Other directives and other lines in place of those of a schema. -/
def Schema.annotate (s : Schema) : Schema := ⟨s.definitions.map (Definition.annotate mark place)⟩

end Annotations

def Schema.eraseDirectives (s : Schema) : Schema := s.annotate (fun _ => []) id

/-- Directives with line zero. -/
def unplacedDirectives (ds : List Directive) : List Directive :=
  ds.map fun d => { d with line := 0 }

/-- The schema with line zero everywhere. -/
def Schema.unplaced (s : Schema) : Schema := s.annotate unplacedDirectives fun _ => 0

section Annotations

variable {mark : List Directive → List Directive} {place : Nat → Nat}

lemma ObjectType.text_annotate (o : ObjectType) : (o.annotate mark place).text = o.text := by
  rw [text, text, annotate, List.map_map]
  rfl

lemma Definition.name_annotate (d : Definition) : (d.annotate mark place).name = d.name := by
  cases d <;> rfl

namespace Schema

/-- Neither directives nor lines are printed. -/
lemma text_annotate (s : Schema) : (s.annotate mark place).text = s.text := by
  rw [text, text, annotate, List.map_map]
  refine congrArg blocks (List.map_congr_left fun d _ => ?_)
  cases d with
  | object o => exact o.text_annotate
  | enum e => rfl

lemma names_annotate (s : Schema) : (s.annotate mark place).names = s.names := by
  rw [names, names, annotate, List.map_map]
  exact List.map_congr_left fun d _ => d.name_annotate

lemma objects_annotate (s : Schema) :
    (s.annotate mark place).objects = s.objects.map (ObjectType.annotate mark place) := by
  rw [objects, objects, annotate, List.filterMap_map, List.map_filterMap]
  refine congrArg (List.filterMap · s.definitions) (funext fun d => ?_)
  cases d <;> rfl

lemma enums_annotate (s : Schema) :
    (s.annotate mark place).enums = s.enums.map (EnumType.annotate place) := by
  rw [enums, enums, annotate, List.filterMap_map, List.map_filterMap]
  refine congrArg (List.filterMap · s.definitions) (funext fun d => ?_)
  cases d <;> rfl

/-- Validity is about names and types only. -/
lemma valid_annotate_iff {s : Schema} : (s.annotate mark place).Valid ↔ s.Valid := by
  have fieldNames (o : ObjectType) :
      (o.annotate mark place).fields.map Field.name = o.fields.map Field.name := List.map_map
  constructor
  · rintro ⟨free, distinct, values, fields, distinctFields, closed⟩
    simp only [names_annotate, objects_annotate, enums_annotate, List.forall_mem_map,
      fieldNames] at free distinct values fields distinctFields closed
    refine ⟨free, distinct, values, fun o ho hnil => fields o ho ?_, distinctFields,
      fun o ho f hf => closed o ho (f.annotate mark place) (List.mem_map.mpr ⟨f, hf, rfl⟩)⟩
    exact List.map_eq_nil_iff.mpr hnil
  · rintro ⟨free, distinct, values, fields, distinctFields, closed⟩
    refine ⟨?_, ?_, ?_, ?_, ?_, ?_⟩
    all_goals simp only [names_annotate, objects_annotate, enums_annotate, List.forall_mem_map,
      fieldNames]
    · exact free
    · exact distinct
    · exact values
    · exact fun o ho hnil => fields o ho (List.map_eq_nil_iff.mp hnil)
    · exact distinctFields
    · exact fun o ho => List.forall_mem_map.mpr (closed o ho)

/-- Schemas that agree but for directives and lines are printed alike. -/
lemma text_congr {s s' : Schema} (h : s'.unplaced = s.eraseDirectives.unplaced) :
    s'.text = s.text := by
  have htext := congrArg Schema.text h
  rw [unplaced, unplaced, eraseDirectives, text_annotate, text_annotate, text_annotate] at htext
  exact htext

/-- Validity does not depend on directives and lines. -/
lemma valid_congr {s s' : Schema} (h : s'.unplaced = s.eraseDirectives.unplaced) :
    s'.Valid ↔ s.Valid := by
  have hvalid := congrArg Schema.Valid h
  rw [unplaced, unplaced, eraseDirectives] at hvalid
  rw [← valid_annotate_iff, hvalid, valid_annotate_iff, valid_annotate_iff]

end Schema

end Annotations

/-! ## The tokens of the printed text -/

namespace TypeRef

def lexemes (line : Nat) : TypeRef → List Lexeme
  | .named n => [⟨.name n, line⟩]
  | .list t => ⟨.punct '[', line⟩ :: t.lexemes line ++ [⟨.punct ']', line⟩]
  | .nonNull t => t.lexemes line ++ [⟨.punct '!', line⟩]

/-- A legible type is a phrase for itself, and for itself with a `!` if it has none. -/
lemma reference_lexemes {t : TypeRef} (h : t.Legible) (line : Nat) :
    (∀ rest, Reference (t.lexemes line ++ rest) t rest) ∧
      (t.isNonNull = false → ∀ rest,
        Reference (t.lexemes line ++ ⟨.punct '!', line⟩ :: rest) (.nonNull t) rest) := by
  induction t with
  | named n =>
    exact ⟨fun rest => .named n line (.absent rest),
      fun _ rest => .named n line (.present line rest)⟩
  | list t ih =>
    have inner (rest : List Lexeme) := (ih h).1 (⟨.punct ']', line⟩ :: rest)
    have hsplit (rest : List Lexeme) : (TypeRef.list t).lexemes line ++ rest =
        ⟨.punct '[', line⟩ :: (t.lexemes line ++ ⟨.punct ']', line⟩ :: rest) := by
      simp [lexemes]
    refine ⟨fun rest => ?_, fun _ rest => ?_⟩
    · rw [hsplit]
      exact .list line line (inner rest) (.absent rest)
    · rw [hsplit]
      exact .list line line (inner _) (.present line rest)
  | nonNull t ih =>
    refine ⟨fun rest => ?_, fun hplain => by cases hplain⟩
    rw [lexemes, List.append_assoc]
    exact (ih h.2).2 h.1 rest

end TypeRef

/-! ## The printed text as a document -/

/-- The tokens of a block whose header is on the given line and whose parts have a line each. -/
def frame {α : Type} (keyword name : String) (row : Nat → α → List Lexeme) (xs : List α)
    (line : Nat) : List Lexeme :=
  ⟨.name keyword, line⟩ :: ⟨.name name, line⟩ :: ⟨.punct '{', line⟩ ::
    ((xs.zipIdx (line + 1)).flatMap (fun x => row x.2 x.1) ++
      [⟨.punct '}', line + 1 + xs.length⟩])

namespace Field

def lexemes (line : Nat) (f : Field) : List Lexeme :=
  ⟨.name f.name, line⟩ :: ⟨.punct ':', line⟩ :: f.type.lexemes line

def placed (line : Nat) (f : Field) : Field := ⟨f.name, f.type, [], line⟩

end Field

namespace Definition

def parts : Definition → Nat
  | .object o => o.fields.length
  | .enum e => e.values.length

def lexemes (line : Nat) : Definition → List Lexeme
  | .object o => frame "type" o.name Field.lexemes o.fields line
  | .enum e => frame "enum" e.name (fun line v => [⟨.name v, line⟩]) e.values line

def placed (line : Nat) : Definition → Definition
  | .object o =>
    .object ⟨o.name, [], (o.fields.zipIdx (line + 1)).map fun f => f.1.placed f.2, line⟩
  | .enum e => .enum ⟨e.name, e.values, line⟩

end Definition

/-- Each definition with the line that its printed text starts on: the closing brace is on the line
behind those of the header and the parts, and a blank line follows it. -/
def layout (line : Nat) : List Definition → List (Definition × Nat)
  | [] => []
  | d :: ds => (d, line) :: layout (line + 1 + d.parts + 2) ds

namespace Schema

def lexemes (s : Schema) : List Lexeme := (layout 1 s.definitions).flatMap fun d => d.1.lexemes d.2

/-- The schema without directives, and with the lines of the printed text. -/
def placed (s : Schema) : Schema := ⟨(layout 1 s.definitions).map fun d => d.1.placed d.2⟩

end Schema

/-! ## What placing changes -/

/-- Placing makes the same of a field, up to its line, as erasing the directives does. -/
lemma map_placed (fs : List Field) (line : Nat) :
    ((fs.zipIdx line).map fun f => f.1.placed f.2).map
        (Field.annotate unplacedDirectives fun _ => 0) =
      (fs.map (Field.annotate (fun _ => []) id)).map
        (Field.annotate unplacedDirectives fun _ => 0) := by
  induction fs generalizing line with
  | nil => rfl
  | cons f fs ih =>
    rw [List.zipIdx_cons, List.map_cons, List.map_cons, ih]
    rfl

lemma Definition.unplaced_placed (d : Definition) (line : Nat) :
    (d.placed line).annotate unplacedDirectives (fun _ => 0) =
      (d.annotate (fun _ => []) id).annotate unplacedDirectives fun _ => 0 := by
  cases d with
  | object o =>
    have hfields := map_placed o.fields (line + 1)
    simp only [Definition.placed, Definition.annotate, ObjectType.annotate, hfields]
  | enum e => rfl

/-- A schema that is placed as it is printed differs from the source in its directives and lines
only. -/
lemma Schema.unplaced_placed (s : Schema) : s.placed.unplaced = s.eraseDirectives.unplaced := by
  have hdefinitions (ds : List Definition) (line : Nat) :
      ((layout line ds).map fun d => d.1.placed d.2).map
          (Definition.annotate unplacedDirectives fun _ => 0) =
        (ds.map (Definition.annotate (fun _ => []) id)).map
          (Definition.annotate unplacedDirectives fun _ => 0) := by
    induction ds generalizing line with
    | nil => rfl
    | cons d ds ih =>
      rw [layout, List.map_cons, List.map_cons, ih, d.unplaced_placed]
      rfl
  exact congrArg Schema.mk (hdefinitions s.definitions 1)

lemma many_flatMap {α β : Type} {p : Phrase β} {xs : List α} {spell : α → List Lexeme}
    {value : α → β} (h : ∀ x ∈ xs, ∀ rest, p (spell x ++ rest) (value x) rest)
    (rest : List Lexeme) : Many p (xs.flatMap spell ++ rest) (xs.map value) rest := by
  induction xs with
  | nil => exact .nil rest
  | cons x xs ih =>
    rw [List.forall_mem_cons] at h
    rw [List.flatMap_cons, List.append_assoc]
    exact .cons (h.1 _) (ih h.2)

lemma mem_of_mem_layout {line : Nat} {ds : List Definition} {d : Definition × Nat}
    (h : d ∈ layout line ds) : d.1 ∈ ds := by
  induction ds generalizing line with
  | nil => cases h
  | cons d' ds ih =>
    rcases List.mem_cons.mp h with rfl | htail
    · exact List.mem_cons_self
    · exact List.mem_cons_of_mem _ (ih htail)

lemma field_lexemes {f : Field} (h : f.Legible) (line : Nat) (rest : List Lexeme) :
    Described FieldDefinition (f.lexemes line ++ rest) (f.placed line) rest :=
  .plain (.mk f.name line line ((TypeRef.reference_lexemes h.type line).1 rest) h.bounded
    (.nil rest))

lemma enumValue_lexemes (n : String) (line : Nat) (rest : List Lexeme) :
    Described EnumValue ([⟨.name n, line⟩] ++ rest) n rest := .plain (.mk n line rest)

lemma definition_lexemes {d : Definition} (h : d.Legible) (line : Nat) (rest : List Lexeme) :
    Described TypeDefinition (d.lexemes line ++ rest) (d.placed line) rest := by
  refine .plain ?_
  cases d with
  | object o =>
    rw [Definition.lexemes, frame, List.cons_append, List.cons_append, List.cons_append,
      List.append_assoc]
    refine .object o.name line line line _ (.nil _) (many_flatMap (fun f hf rest => ?_) _)
    exact field_lexemes (h.2 f.1 (List.fst_mem_of_mem_zipIdx hf)) f.2 rest
  | enum e =>
    have values : Many (Described EnumValue)
        ((e.values.zipIdx (line + 1)).flatMap (fun v => [⟨.name v.1, v.2⟩]) ++
          ⟨.punct '}', line + 1 + e.values.length⟩ :: rest)
        ((e.values.zipIdx (line + 1)).map Prod.fst)
        (⟨.punct '}', line + 1 + e.values.length⟩ :: rest) :=
      many_flatMap (fun v _ rest => enumValue_lexemes v.1 v.2 rest) _
    rw [List.zipIdx_map_fst] at values
    rw [Definition.lexemes, frame, List.cons_append, List.cons_append, List.cons_append,
      List.append_assoc]
    exact .enum e.name line line line _ values

/-- The tokens of the printed text are a document of the placed schema. -/
lemma document_lexemes {s : Schema} (h : s.Legible) : TypeSystemDocument s.lexemes s.placed := by
  have definitions : Many (Described TypeDefinition) (s.lexemes ++ []) s.placed.definitions [] :=
    many_flatMap (fun d hd rest => definition_lexemes (h d.1 (mem_of_mem_layout hd)) d.2 rest) []
  rw [List.append_nil] at definitions
  exact .plain definitions

/-! ## Reading the printed text -/

namespace Lexer.Lexes

variable {line line' : Nat}

lemma type {t : TypeRef} (h : t.Legible) {c : Char} (hc : continuesName c = false)
    {cs : List Char} {ts : List Lexeme} (behind : Lexes line (c :: cs) line' ts) :
    Lexes line (t.text.toList ++ c :: cs) line' (t.lexemes line ++ ts) := by
  induction t generalizing c cs ts with
  | named n => exact name h hc behind
  | list t ih =>
    have inner := ih h (by decide) (punct (by decide : ']' ∈ punctuation) behind)
    have outer := punct (by decide : '[' ∈ punctuation) inner
    simpa [TypeRef.text, TypeRef.lexemes] using outer
  | nonNull t ih =>
    have inner := ih h.2 (by decide) (punct (by decide : '!' ∈ punctuation) behind)
    simpa [TypeRef.text, TypeRef.lexemes] using inner

/-- A part on a line of its own. -/
def Row (text : String) (row : Nat → List Lexeme) : Prop :=
  ∀ line, Lexes line ("  " ++ text ++ "\n").toList (line + 1) (row line)

lemma row_field {f : Field} (h : f.Legible) : Row f.text fun line => f.lexemes line := by
  intro line
  have behind := type h.type (by decide) (newline (nil (line + 1)))
  have colon := punct (by decide : ':' ∈ punctuation) (space behind)
  have all := space (space (name h.name (by decide) colon))
  simpa [Field.text, Field.lexemes] using all

lemma row_value {v : String} (h : IsName v) : Row v fun line => [⟨.name v, line⟩] := by
  intro line
  have all := space (space (name h (by decide) (newline (nil (line + 1)))))
  simpa using all

lemma rows {α : Type} {text : α → String} {row : Nat → α → List Lexeme} {xs : List α}
    (h : ∀ x ∈ xs, Row (text x) fun line => row line x) (line : Nat) :
    Lexes line (String.join ((xs.map text).map fun l => "  " ++ l ++ "\n")).toList
      (line + xs.length) ((xs.zipIdx line).flatMap fun x => row x.2 x.1) := by
  induction xs generalizing line with
  | nil => exact nil line
  | cons x xs ih =>
    rw [List.forall_mem_cons] at h
    have hlength : line + (x :: xs).length = line + 1 + xs.length := by
      rw [List.length_cons]
      omega
    rw [List.map_cons, List.map_cons, String.join_cons, String.toList_append, List.zipIdx_cons,
      List.flatMap_cons, hlength]
    exact append (h.1 line) (ih h.2 (line + 1))

lemma frame {α : Type} {keyword name : String} (hkeyword : IsName keyword) (hname : IsName name)
    {text : α → String} {row : Nat → α → List Lexeme} {xs : List α}
    (h : ∀ x ∈ xs, Row (text x) fun line => row line x) (line : Nat) :
    Lexes line (block keyword name (xs.map text)).toList (line + 1 + xs.length)
      (frame keyword name row xs line) := by
  have close := punct (by decide : '}' ∈ punctuation) (nil (line + 1 + xs.length))
  have body := newline (append (rows h (line + 1)) close)
  have header := Lexes.name hkeyword (by decide) (space (Lexes.name hname (by decide)
    (space (punct (by decide : '{' ∈ punctuation) body))))
  simpa [block, SchemaStack.frame] using header

lemma isName_type : IsName "type" :=
  ⟨'t', ['y', 'p', 'e'], by decide, by decide, List.all_eq_true.mp (by decide)⟩

lemma isName_enum : IsName "enum" :=
  ⟨'e', ['n', 'u', 'm'], by decide, by decide, List.all_eq_true.mp (by decide)⟩

lemma definition {d : Definition} (h : d.Legible) (line : Nat) :
    Lexes line d.text.toList (line + 1 + d.parts) (d.lexemes line) := by
  cases d with
  | object o => exact frame isName_type h.1 (fun f hf => row_field (h.2 f hf)) line
  | enum e =>
    have hrows : ∀ v ∈ e.values, Row (id v) fun line => [⟨.name v, line⟩] :=
      fun v hv => row_value (h.2 v hv)
    have all := frame isName_enum h.1 hrows line
    rwa [List.map_id] at all

lemma definitions {ds : List Definition} (h : ∀ d ∈ ds, d.Legible) (line : Nat) :
    ∃ line', Lexes line (blocks (ds.map Definition.text)).toList line'
      ((layout line ds).flatMap fun d => d.1.lexemes d.2) := by
  induction ds generalizing line with
  | nil => exact ⟨line, nil line⟩
  | cons d ds ih =>
    rw [List.forall_mem_cons] at h
    have hd := definition h.1 line
    cases ds with
    | nil => exact ⟨_, by simpa [blocks, layout] using hd⟩
    | cons d' ds =>
      obtain ⟨line', hds⟩ := ih h.2 (line + 1 + d.parts + 2)
      have apart := newline (newline hds)
      have htext : (blocks ((d :: d' :: ds).map Definition.text)).toList =
          d.text.toList ++ '\n' :: '\n' :: (blocks ((d' :: ds).map Definition.text)).toList := by
        rw [List.map_cons, blocks, String.intercalate_cons_of_ne_nil (by simp)]
        simp [blocks]
      exact ⟨line', by rw [htext, layout, List.flatMap_cons]; exact append hd apart⟩

end Lexer.Lexes

namespace Schema

/-- The printed text has the tokens that are laid out for it. -/
lemma tokens_text {s : Schema} (h : s.Legible) : Lexer.tokens s.text = .ok s.lexemes := by
  obtain ⟨line', hs⟩ := Lexer.Lexes.definitions h 1
  have hall := hs []
  rw [List.append_nil, Lexer.tokensFrom_nil] at hall
  rw [Lexer.tokens, text, hall]
  exact congrArg Except.ok (List.append_nil _)

lemma parse_text_legible {s : Schema} (legible : s.Legible) (valid : s.Valid) :
    Schema.parse s.text = .ok s.placed := by
  have check : s.placed.check = .ok () :=
    check_eq_ok_iff.mpr ((valid_congr s.unplaced_placed).mpr valid)
  exact parse_eq_ok_iff.mpr ⟨s.lexemes, tokens_text legible, document_lexemes legible, check⟩

lemma legible_of_parse {text : String} {s : Schema} (h : Schema.parse text = .ok s) :
    s.Legible ∧ s.Valid := by
  obtain ⟨ts, htokens, hdocument, hcheck⟩ := parse_eq_ok_iff.mp h
  exact ⟨legible_of_document hdocument (Lexer.spelled_of_tokensFrom htokens),
    check_eq_ok_iff.mp hcheck⟩

/-- What is printed for a schema that was read is read again, as the same schema but for
directives and lines, so the same is printed for it. -/
theorem parse_text {text : String} {s : Schema} (h : Schema.parse text = .ok s) :
    ∃ s', Schema.parse s.text = .ok s' ∧ s'.unplaced = s.eraseDirectives.unplaced ∧
      s'.text = s.text := by
  obtain ⟨legible, valid⟩ := legible_of_parse h
  exact ⟨s.placed, parse_text_legible legible valid, s.unplaced_placed,
    text_congr s.unplaced_placed⟩

/-- A schema with a description, directives, lists in lists and keywords for names. -/
def keywordText : String :=
  "\"A blog\" type Blog @model(at: [1, true]) \x7b " ++
    "id: ID! type: [[enum!]!] @x(y: \x7bz: 1\x7d) \x7d enum enum \x7b type, \"Other\" enum \x7d"

theorem parse_text_keywords :
    ∃ s s', Schema.parse keywordText = .ok s ∧ Schema.parse s.text = .ok s' ∧
      s.text = "type Blog \x7b\n  id: ID!\n  type: [[enum!]!]\n\x7d\n\n" ++
        "enum enum \x7b\n  type\n  enum\n\x7d" ∧
      s'.unplaced = s.eraseDirectives.unplaced := by
  have hprinted : (Schema.parse keywordText).toOption.map Schema.text =
      some ("type Blog \x7b\n  id: ID!\n  type: [[enum!]!]\n\x7d\n\n" ++
        "enum enum \x7b\n  type\n  enum\n\x7d") := by decide +kernel
  cases hparse : Schema.parse keywordText with
  | error e =>
    rw [hparse] at hprinted
    cases hprinted
  | ok s =>
    rw [hparse] at hprinted
    obtain ⟨s', hs', hsame, _⟩ := parse_text hparse
    exact ⟨s, s', rfl, hs', Option.some.inj hprinted, hsame⟩

end Schema

end SchemaStack
