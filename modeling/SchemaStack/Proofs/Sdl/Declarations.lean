import SchemaStack.Proofs.Schema.RoundTrip
/-!
# What a schema text declares

The text of a compiled schema has what a source text cannot have: inputs, and fields that take
arguments. A reader of such texts says what they declare. What is printed for declarations that
can be spelled out is read back as these declarations, so a printed text declares nothing else.
-/

namespace SchemaStack.Sdl

open Grammar Lexer

/-- A name and its type: a field of an input or an argument of a field. -/
structure Slot where
  name : String
  type : TypeRef
deriving DecidableEq, Repr

/-- A field of a type. -/
structure Member where
  name : String
  arguments : List Slot
  type : TypeRef
deriving DecidableEq, Repr

inductive Declaration where
  | type (name : String) (members : List Member)
  | input (name : String) (slots : List Slot)
  | enum (name : String) (values : List String)
deriving DecidableEq, Repr

def Declaration.name : Declaration → String
  | .type n _ => n
  | .input n _ => n
  | .enum n _ => n

/-! ## Reading -/

section Reader

open SchemaStack.Parser

def slot : Step Slot := fun ts => do
  let n ← name 0 ts
  let colon ← punct 0 ':' n.rest
  let t ← typeRef 0 Schema.maxNesting colon.rest
  return n.after (colon.after (t.map fun t => ⟨n.value, t⟩))

/-- The arguments in parentheses, or none. -/
def arguments (ts : List Lexeme) : Except SchemaError (Trailing (List Slot) ts) :=
  match mark? '(' ts with
  | none => .ok (.none [] ts)
  | some m => (upTo ')' slot m.rest).map fun r => (m.after r).trailing

def member : Step Member := fun ts => do
  let n ← name 0 ts
  let args ← arguments n.rest
  let colon ← punct 0 ':' args.rest
  let t ← typeRef 0 Schema.maxNesting colon.rest
  return n.after (args.after (colon.after (t.map fun t => ⟨n.value, args.value, t⟩)))

/-- A name and the items in braces behind it. -/
def body {α : Type} (item : Step α) : Step (String × List α) := fun ts => do
  let n ← name 0 ts
  let brace ← punct 0 '{' n.rest
  let items ← upTo '}' item brace.rest
  return n.after (brace.after (items.map fun items => (n.value, items)))

def declaration : Step Declaration := fun ts => do
  let keyword ← name 0 ts
  if keyword.value = "type" then do
    let b ← body member keyword.rest
    return keyword.after (b.map fun b => .type b.1 b.2)
  else if keyword.value = "input" then do
    let b ← body slot keyword.rest
    return keyword.after (b.map fun b => .input b.1 b.2)
  else if keyword.value = "enum" then do
    let b ← body (name 0) keyword.rest
    return keyword.after (b.map fun b => .enum b.1 b.2)
  else fail (.expectedDefinition keyword.value) (lineOf 0 ts)

def declarations (ts : List Lexeme) : Except SchemaError (List Declaration) :=
  if ts.isEmpty then .ok []
  else
    match declaration ts with
    | .error e => .error e
    | .ok d => (declarations d.rest).map (d.value :: ·)
termination_by ts.length
decreasing_by exact d.shorter

/-- What a text declares, in order. -/
def read (text : String) : Except SchemaError (List Declaration) := do
  declarations (← Lexer.tokens text)

end Reader

/-! ## Printing -/

def Slot.text (s : Slot) : String := s.name ++ ": " ++ s.type.text

/-- Arguments in parentheses, where there are any. -/
def argumentsText (as : List Slot) : String :=
  if as.isEmpty then "" else "(" ++ ", ".intercalate (as.map Slot.text) ++ ")"

def Member.text (m : Member) : String :=
  m.name ++ argumentsText m.arguments ++ ": " ++ m.type.text

def Declaration.text : Declaration → String
  | .type n ms => block "type" n (ms.map Member.text)
  | .input n ss => block "input" n (ss.map Slot.text)
  | .enum n vs => block "enum" n vs

/-! ## What can be spelled out -/

structure Slot.Legible (s : Slot) : Prop where
  name : IsName s.name
  type : s.type.Legible
  bounded : s.type.lists ≤ Schema.maxNesting

structure Member.Legible (m : Member) : Prop where
  name : IsName m.name
  arguments : ∀ a ∈ m.arguments, a.Legible
  type : m.type.Legible
  bounded : m.type.lists ≤ Schema.maxNesting

def Declaration.Legible : Declaration → Prop
  | .type n ms => IsName n ∧ ∀ m ∈ ms, m.Legible
  | .input n ss => IsName n ∧ ∀ s ∈ ss, s.Legible
  | .enum n vs => IsName n ∧ ∀ v ∈ vs, IsName v

/-! ## The tokens of the printed text -/

def Slot.lexemes (line : Nat) (s : Slot) : List Lexeme :=
  ⟨.name s.name, line⟩ :: ⟨.punct ':', line⟩ :: s.type.lexemes line

def argumentsLexemes (line : Nat) (as : List Slot) : List Lexeme :=
  if as.isEmpty then []
  else ⟨.punct '(', line⟩ :: (as.flatMap (Slot.lexemes line) ++ [⟨.punct ')', line⟩])

def Member.lexemes (line : Nat) (m : Member) : List Lexeme :=
  ⟨.name m.name, line⟩ ::
    (argumentsLexemes line m.arguments ++ ⟨.punct ':', line⟩ :: m.type.lexemes line)

def nameLexemes (line : Nat) (n : String) : List Lexeme := [⟨.name n, line⟩]

def Declaration.lexemes (line : Nat) : Declaration → List Lexeme
  | .type n ms => frame "type" n Member.lexemes ms line
  | .input n ss => frame "input" n Slot.lexemes ss line
  | .enum n vs => frame "enum" n nameLexemes vs line

section Spelling

open Lexes

variable {line line' : Nat} {cs : List Char} {ts : List Lexeme}

lemma lexes_comma (h : Lexes line cs line' ts) : Lexes line (',' :: cs) line' ts := by
  intro rest
  rw [List.cons_append, tokensFrom, if_neg (by decide), if_pos (by decide), h]

lemma lexes_slot {s : Slot} (h : s.Legible) {c : Char} (hc : continuesName c = false)
    (behind : Lexes line (c :: cs) line' ts) :
    Lexes line (s.text.toList ++ c :: cs) line' (s.lexemes line ++ ts) := by
  have colon := punct (by decide : ':' ∈ punctuation) (space (Lexes.type h.type hc behind))
  have all := name h.name (by decide) colon
  simpa [Slot.text, Slot.lexemes] using all

/-- Arguments up to the closing parenthesis, each with a comma before the next. -/
lemma lexes_slots {as : List Slot} (h : ∀ a ∈ as, a.Legible)
    (behind : Lexes line cs line' ts) :
    Lexes line ((", ".intercalate (as.map Slot.text)).toList ++ ')' :: cs) line'
      (as.flatMap (Slot.lexemes line) ++ ⟨.punct ')', line⟩ :: ts) := by
  have close := punct (by decide : ')' ∈ punctuation) behind
  induction as with
  | nil => exact close
  | cons a as ih =>
    rw [List.forall_mem_cons] at h
    cases as with
    | nil => simpa using lexes_slot h.1 (by decide) close
    | cons b as =>
      have all := lexes_slot h.1 (by decide) (lexes_comma (space (ih h.2)))
      rw [List.map_cons, String.intercalate_cons_of_ne_nil (by simp), List.flatMap_cons,
        List.append_assoc]
      simpa using all

lemma lexes_arguments {as : List Slot} (h : ∀ a ∈ as, a.Legible)
    (behind : Lexes line (':' :: cs) line' ts) :
    ∃ c cs', (argumentsText as).toList ++ ':' :: cs = c :: cs' ∧ continuesName c = false ∧
      Lexes line (c :: cs') line' (argumentsLexemes line as ++ ts) := by
  cases as with
  | nil => exact ⟨':', cs, rfl, by decide, behind⟩
  | cons a as =>
    have all := punct (by decide : '(' ∈ punctuation) (lexes_slots h behind)
    refine ⟨'(', (", ".intercalate ((a :: as).map Slot.text)).toList ++ ')' :: ':' :: cs, ?_,
      by decide, ?_⟩
    · simp [argumentsText]
    · simpa [argumentsLexemes] using all

lemma row_slot {s : Slot} (h : s.Legible) : Row s.text fun line => s.lexemes line := by
  intro line
  have all := space (space (lexes_slot h (by decide) (newline (nil (line + 1)))))
  simpa using all

lemma row_member {m : Member} (h : m.Legible) : Row m.text fun line => m.lexemes line := by
  intro line
  have type := Lexes.type h.type (by decide) (newline (nil (line + 1)))
  have colon := punct (by decide : ':' ∈ punctuation) (space type)
  obtain ⟨c, cs', hcs, hc, arguments⟩ := lexes_arguments h.arguments colon
  have all := space (space (name h.name hc arguments))
  rw [← hcs] at all
  simpa [Member.text, Member.lexemes] using all

lemma row_name {v : String} (h : IsName v) : Row v fun line => nameLexemes line v :=
  row_value h

lemma isName_input : IsName "input" :=
  ⟨'i', ['n', 'p', 'u', 't'], by decide, by decide, List.all_eq_true.mp (by decide)⟩

lemma lexes_declaration {d : Declaration} (h : d.Legible) (line : Nat) :
    ∃ line', Lexes line d.text.toList line' (d.lexemes line) := by
  cases d with
  | type n ms => exact ⟨_, Lexes.frame isName_type h.1 (fun m hm => row_member (h.2 m hm)) line⟩
  | input n ss => exact ⟨_, Lexes.frame isName_input h.1 (fun s hs => row_slot (h.2 s hs)) line⟩
  | enum n vs =>
    have hrows : ∀ v ∈ vs, Row (id v) fun line => nameLexemes line v :=
      fun v hv => row_name (h.2 v hv)
    have all := Lexes.frame isName_enum h.1 hrows line
    rw [List.map_id] at all
    exact ⟨_, all⟩

end Spelling

/-! ## Reading the printed text -/

section Reading

open SchemaStack.Parser

variable {ts rest : List Lexeme}

/-- The tokens of something that can be spelled out, on some line. -/
def Written {α : Type} (legible : α → Prop) (lexemes : Nat → α → List Lexeme) : Phrase α :=
  fun ts a rest => legible a ∧ ∃ line, ts = lexemes line a ++ rest

lemma slot_complete : Complete ['!'] slot (Written Slot.Legible Slot.lexemes) := by
  rintro _ s rest ⟨h, line, rfl⟩ clear
  have type := (TypeRef.reference_lexemes h.type line).1 rest
  obtain ⟨hrest, ht⟩ := typeRef_complete 0 type h.bounded clear
  refine ⟨Nat.lt_succ_of_lt (Nat.lt_succ_of_lt hrest), ?_⟩
  simp only [slot, Slot.lexemes, List.cons_append, name_cons, ok_bind, Reading.head, punct_cons, ht]
  rfl

lemma clear_slot {marks : List Char} {s : Slot} (h : Written Slot.Legible Slot.lexemes ts s rest) :
    Clear marks ts := by
  obtain ⟨_, line, rfl⟩ := h
  exact clear_name _ _ _ _

/-- Arguments are read up to the colon behind them. -/
lemma leaves_arguments {as : List Slot} (h : ∀ a ∈ as, a.Legible) (line colon : Nat)
    (rest : List Lexeme) :
    Leaves (arguments (argumentsLexemes line as ++ ⟨.punct ':', colon⟩ :: rest)) as
      (⟨.punct ':', colon⟩ :: rest) := by
  cases as with
  | nil =>
    change Leaves (arguments (⟨.punct ':', colon⟩ :: rest)) [] (⟨.punct ':', colon⟩ :: rest)
    refine ⟨Nat.le_refl _, ?_⟩
    rw [arguments, mark?_eq_none rfl]
    rfl
  | cons a as =>
    have slots : Many (Written Slot.Legible Slot.lexemes)
        ((a :: as).flatMap (Slot.lexemes line) ++
          ⟨.punct ')', line⟩ :: ⟨.punct ':', colon⟩ :: rest)
        ((a :: as).map id) (⟨.punct ')', line⟩ :: ⟨.punct ':', colon⟩ :: rest) :=
      many_flatMap (fun a ha rest => ⟨h a ha, line, rfl⟩) _
    rw [List.map_id] at slots
    obtain ⟨hrest, hslots⟩ := upTo_complete slot_complete (by decide) clear_slot slots
    have hsplit : argumentsLexemes line (a :: as) ++ ⟨.punct ':', colon⟩ :: rest =
        ⟨.punct '(', line⟩ :: ((a :: as).flatMap (Slot.lexemes line) ++
          ⟨.punct ')', line⟩ :: ⟨.punct ':', colon⟩ :: rest) := by
      simp [argumentsLexemes]
    rw [hsplit]
    refine ⟨Nat.le_of_lt (Nat.lt_succ_of_lt hrest), ?_⟩
    simp only [arguments, mark?_cons, Reading.head, hslots]
    rfl

lemma member_complete : Complete ['!'] member (Written Member.Legible Member.lexemes) := by
  rintro _ m rest ⟨h, line, rfl⟩ clear
  have type := (TypeRef.reference_lexemes h.type line).1 rest
  obtain ⟨hrest, ht⟩ := typeRef_complete 0 type h.bounded clear
  obtain ⟨hargs, hargsEq⟩ :=
    leaves_arguments h.arguments line line (m.type.lexemes line ++ rest)
  have hsplit : m.lexemes line ++ rest = ⟨.name m.name, line⟩ ::
      (argumentsLexemes line m.arguments ++ ⟨.punct ':', line⟩ :: (m.type.lexemes line ++ rest)) := by
    simp [Member.lexemes]
  rw [hsplit]
  have shorter : rest.length < (argumentsLexemes line m.arguments ++
      ⟨.punct ':', line⟩ :: (m.type.lexemes line ++ rest)).length :=
    Nat.lt_of_lt_of_le (Nat.lt_succ_of_lt hrest) hargs
  refine ⟨Nat.lt_succ_of_lt shorter, ?_⟩
  simp only [member, name_cons, ok_bind, Reading.head, hargsEq, punct_cons, ht]
  rfl

lemma clear_member {marks : List Char} {m : Member}
    (h : Written Member.Legible Member.lexemes ts m rest) : Clear marks ts := by
  obtain ⟨_, line, rfl⟩ := h
  exact clear_name _ _ _ _

lemma name_complete : Complete ['!'] (name 0) (Written IsName nameLexemes) := by
  rintro _ n rest ⟨_, line, rfl⟩ _
  exact ⟨_, name_cons n line rest⟩

lemma clear_nameLexemes {marks : List Char} {n : String}
    (h : Written IsName nameLexemes ts n rest) : Clear marks ts := by
  obtain ⟨_, line, rfl⟩ := h
  exact clear_name _ _ _ _

/-- What stands behind the keyword of a frame. -/
lemma reads_body {α : Type} {item : Step α} {legible : α → Prop}
    {lexemes : Nat → α → List Lexeme} (complete : Complete ['!'] item (Written legible lexemes))
    (starts : ∀ {ts a rest}, Written legible lexemes ts a rest → Clear ['}', '!'] ts)
    {xs : List α} (h : ∀ x ∈ xs, legible x) (keyword n : String) (line : Nat)
    (rest : List Lexeme) :
    Reads (body item ((frame keyword n lexemes xs line).tail ++ rest)) (n, xs) rest := by
  have items : Many (Written legible lexemes)
      ((xs.zipIdx (line + 1)).flatMap (fun x => lexemes x.2 x.1) ++
        ⟨.punct '}', line + 1 + xs.length⟩ :: rest)
      ((xs.zipIdx (line + 1)).map Prod.fst) (⟨.punct '}', line + 1 + xs.length⟩ :: rest) :=
    many_flatMap (fun x hx rest => ⟨h x.1 (List.fst_mem_of_mem_zipIdx hx), x.2, rfl⟩) _
  rw [List.zipIdx_map_fst] at items
  obtain ⟨hrest, hitems⟩ := upTo_complete complete (by decide) starts items
  have hsplit : (frame keyword n lexemes xs line).tail ++ rest = ⟨.name n, line⟩ ::
      ⟨.punct '{', line⟩ :: ((xs.zipIdx (line + 1)).flatMap (fun x => lexemes x.2 x.1) ++
        ⟨.punct '}', line + 1 + xs.length⟩ :: rest) := by
    simp [frame]
  rw [hsplit]
  refine ⟨Nat.lt_succ_of_lt (Nat.lt_succ_of_lt hrest), ?_⟩
  simp only [body, name_cons, ok_bind, Reading.head, punct_cons, hitems]
  rfl

lemma reads_declaration {d : Declaration} (h : d.Legible) (line : Nat) (rest : List Lexeme) :
    Reads (declaration (d.lexemes line ++ rest)) d rest := by
  have frame_eq {α : Type} (keyword n : String) (row : Nat → α → List Lexeme) (xs : List α) :
      frame keyword n row xs line ++ rest =
        ⟨.name keyword, line⟩ :: ((frame keyword n row xs line).tail ++ rest) := rfl
  cases d with
  | type n ms =>
    obtain ⟨hrest, hbody⟩ :=
      reads_body member_complete clear_member h.2 "type" n line rest
    rw [Declaration.lexemes, frame_eq]
    refine ⟨Nat.lt_succ_of_lt hrest, ?_⟩
    simp only [declaration, name_cons, ok_bind, Reading.head, if_true, hbody]
    rfl
  | input n ss =>
    obtain ⟨hrest, hbody⟩ := reads_body slot_complete clear_slot h.2 "input" n line rest
    have different : "input" ≠ "type" := by decide
    rw [Declaration.lexemes, frame_eq]
    refine ⟨Nat.lt_succ_of_lt hrest, ?_⟩
    simp only [declaration, name_cons, ok_bind, Reading.head, if_neg different, if_true, hbody]
    rfl
  | enum n vs =>
    obtain ⟨hrest, hbody⟩ :=
      reads_body name_complete clear_nameLexemes h.2 "enum" n line rest
    have notType : "enum" ≠ "type" := by decide
    have notInput : "enum" ≠ "input" := by decide
    rw [Declaration.lexemes, frame_eq]
    refine ⟨Nat.lt_succ_of_lt hrest, ?_⟩
    simp only [declaration, name_cons, ok_bind, Reading.head, if_neg notType, if_neg notInput,
      if_true, hbody]
    rfl

lemma declarations_of_reads {d : Declaration} {ds : List Declaration}
    (head : Reads (declaration ts) d rest) (tail : declarations rest = .ok ds) :
    declarations ts = .ok (d :: ds) := by
  obtain ⟨hrest, hd⟩ := head
  have hne : ts.isEmpty = false := by
    cases ts with
    | nil => exact absurd hrest (Nat.not_lt_zero _)
    | cons l ts => rfl
  rw [declarations, hne, hd]
  simp only [tail]
  rfl

/-- Printed declarations have tokens that are read as these declarations. -/
lemma lexes_blocks {ds : List Declaration} (h : ∀ d ∈ ds, d.Legible) (line : Nat) :
    ∃ line' ts, Lexes line (blocks (ds.map Declaration.text)).toList line' ts ∧
      declarations ts = .ok ds := by
  induction ds generalizing line with
  | nil => exact ⟨line, [], .nil line, by rw [declarations]; rfl⟩
  | cons d ds ih =>
    rw [List.forall_mem_cons] at h
    obtain ⟨endLine, hd⟩ := lexes_declaration h.1 line
    cases ds with
    | nil =>
      have hdone : declarations [] = .ok [] := by rw [declarations]; rfl
      have hreads := declarations_of_reads (reads_declaration h.1 line []) hdone
      rw [List.append_nil] at hreads
      exact ⟨endLine, _, by simpa [blocks] using hd, hreads⟩
    | cons d' ds =>
      obtain ⟨line', ts, hts, hds⟩ := ih h.2 (endLine + 2)
      have apart := Lexes.newline (Lexes.newline hts)
      have htext : (blocks ((d :: d' :: ds).map Declaration.text)).toList = d.text.toList ++
          '\n' :: '\n' :: (blocks ((d' :: ds).map Declaration.text)).toList := by
        rw [List.map_cons, blocks, String.intercalate_cons_of_ne_nil (by simp)]
        simp [blocks]
      refine ⟨line', d.lexemes line ++ ts, ?_,
        declarations_of_reads (reads_declaration h.1 line ts) hds⟩
      rw [htext]
      exact hd.append apart

/-- A printed text declares what it was printed for. -/
theorem read_blocks {ds : List Declaration} (h : ∀ d ∈ ds, d.Legible) :
    read (blocks (ds.map Declaration.text)) = .ok ds := by
  obtain ⟨line', ts, hts, hds⟩ := lexes_blocks h 1
  have hall := hts []
  rw [List.append_nil, tokensFrom_nil] at hall
  rw [read, tokens, hall]
  change declarations (ts ++ []) = .ok ds
  rw [List.append_nil, hds]

end Reading

end SchemaStack.Sdl
