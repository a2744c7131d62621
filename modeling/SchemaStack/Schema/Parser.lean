import SchemaStack.Schema.Basic
import SchemaStack.Fault
import SchemaStack.Text.Reading
/-!
# From tokens to schemas

A description, which is a string before a definition, a field or an enum value, is skipped. Every
fault is on the line of the token it is about, or on the line of the last token where the text
ends too early.
-/

namespace SchemaStack.Parser

/-- Readings of the front of a token list. -/
abbrev Step (α : Type) := (ts : List Lexeme) → Except SchemaError (Reading α ts)

/-- The line of the last token. -/
def lastLine (ts : List Lexeme) : Nat := (ts.getLast?.map Lexeme.line).getD 1

variable (final : Nat)

/-- The line to report: that of the next token, or the final line. -/
def lineOf : List Lexeme → Nat
  | [] => final
  | l :: _ => l.line

def startsWith (c : Char) : List Lexeme → Bool
  | [] => false
  | l :: _ => l.token == .punct c

/-- The mark, if it is next. -/
def mark? (c : Char) : (ts : List Lexeme) → Option (Reading Unit ts)
  | [] => none
  | l :: ts => if l.token = .punct c then some (.head () l ts) else none

def fail {α : Type} (f : SyntaxFault) (line : Nat) : Except SchemaError α :=
  .error ((Fault.syntactic f).onLine line)

def punct (c : Char) : Step Unit
  | [] => fail .unexpectedEnd final
  | l :: ts =>
    if l.token = .punct c then .ok (.head () l ts) else fail (.expectedPunct c l.token) l.line

def name : Step String
  | [] => fail .unexpectedEnd final
  | l :: ts =>
    match l.token with
    | .name n => .ok (.head n l ts)
    | t => fail (.expectedName t) l.line

def description : (ts : List Lexeme) → Trailing Unit ts
  | [] => .none () []
  | l :: ts =>
    match l.token with
    | .string _ => (Reading.head () l ts).trailing
    | _ => .none () (l :: ts)

/-- Items up to a closing mark, which is taken too. -/
def upTo {α : Type} (close : Char) (item : Step α) (ts : List Lexeme) :
    Except SchemaError (Reading (List α) ts) :=
  match mark? close ts with
  | some m => .ok (m.map fun _ => [])
  | none =>
    match item ts with
    | .error e => .error e
    | .ok a => (upTo close item a.rest).map fun as => a.after (as.map (a.value :: ·))
termination_by ts.length
decreasing_by exact a.shorter

/-- A type takes a `!` that follows it. -/
def withBang {ts : List Lexeme} (r : Reading TypeRef ts) : Reading TypeRef ts :=
  match r with
  | ⟨t, [], h⟩ => ⟨t, [], h⟩
  | ⟨t, l :: rest, h⟩ =>
    if l.token = .punct '!' then ⟨.nonNull t, rest, Nat.lt_of_succ_lt h⟩ else ⟨t, l :: rest, h⟩

/-- A type reference with at most `depth` lists inside each other. -/
def typeRef : (depth : Nat) → Step TypeRef
  | _, [] => fail .unexpectedEnd final
  | 0, l :: ts =>
    if l.token = .punct '[' then fail .typeTooDeep l.line
    else (name final (l :: ts)).map fun n => withBang (n.map .named)
  | depth + 1, l :: ts =>
    if l.token = .punct '[' then do
      let item ← typeRef depth ts
      let close ← punct final ']' item.rest
      return withBang (item.after (close.map fun _ => .list item.value)).cons
    else (name final (l :: ts)).map fun n => withBang (n.map .named)

/-- What a bare name stands for. -/
def literalOfName (n : String) : Literal :=
  if n = "true" then .bool true
  else if n = "false" then .bool false
  else if n = "null" then .null
  else .enum n

/-- A name, a colon and a value. -/
def entry (value : Step Literal) : Step (String × Literal) := fun ts => do
  let key ← name final ts
  let colon ← punct final ':' key.rest
  let v ← value colon.rest
  return key.after (colon.after (v.map fun v => (key.value, v)))

/-- A value with at most `depth` levels, a scalar being one level. -/
def literal : (depth : Nat) → Step Literal
  | 0, ts => fail .valueTooDeep (lineOf final ts)
  | _ + 1, [] => fail .unexpectedEnd final
  | depth + 1, l :: ts =>
    match l.token with
    | .string s => .ok (.head (.string s) l ts)
    | .int n => .ok (.head (.int n) l ts)
    | .float x => .ok (.head (.float x) l ts)
    | .name n => .ok (.head (literalOfName n) l ts)
    | .punct '[' => (upTo ']' (literal depth) ts).map fun r => (r.map .list).cons
    | .punct '{' =>
      (upTo '}' (entry final (literal depth)) ts).map fun r =>
        (r.map fun es => .object (Entries.ofList es)).cons
    | t => fail (.expectedValue t) l.line

/-- The arguments after those in `acc`, up to the closing parenthesis. -/
def arguments (directive : String) (acc : Entries Literal) (ts : List Lexeme) :
    Except SchemaError (Reading (Entries Literal) ts) :=
  match mark? ')' ts with
  | some m => .ok (m.map fun _ => acc)
  | none =>
    match entry final (literal final Schema.maxNesting) ts with
    | .error e => .error e
    | .ok r =>
      if acc.contains r.value.1 then
        fail (.duplicateArgument directive r.value.1) (lineOf final ts)
      else (arguments directive (acc ++ [r.value]) r.rest).map r.after
termination_by ts.length
decreasing_by exact r.shorter

/-- A directive after its `@`, which was on the given line. -/
def directive (line : Nat) : Step Directive := fun ts => do
  let n ← name final ts
  match mark? '(' n.rest with
  | none => return n.map fun n => ⟨n, [], line⟩
  | some m => do
    let args ← arguments final n.value [] m.rest
    return n.after (m.after (args.map fun args => ⟨n.value, args, line⟩))

/-- The directives at the front, possibly none. -/
def directives (ts : List Lexeme) : Except SchemaError (Trailing (List Directive) ts) :=
  match mark? '@' ts with
  | none => .ok (.none [] ts)
  | some m =>
    match directive final (lineOf final ts) m.rest with
    | .error e => .error e
    | .ok d =>
      (directives d.rest).map fun ds =>
        (m.after (d.followedBy ⟨d.value :: ds.value, ds.rest, ds.bounded⟩)).trailing
termination_by ts.length
decreasing_by exact Nat.lt_trans d.shorter m.shorter

/-- A field of the named type after its description. -/
def fieldBody (type : String) : Step Field := fun ts => do
  let n ← name final ts
  if startsWith '(' n.rest then fail (.fieldArguments type n.value) (lineOf final ts)
  else do
    let colon ← punct final ':' n.rest
    let t ← typeRef final Schema.maxNesting colon.rest
    let ds ← directives final t.rest
    return n.after (colon.after (t.followedBy
      ⟨⟨n.value, t.value, ds.value, lineOf final ts⟩, ds.rest, ds.bounded⟩))

def field (type : String) : Step Field := fun ts =>
  (fieldBody final type (description ts).rest).map (description ts).after

def enumValue : Step String := fun ts =>
  (name final (description ts).rest).map (description ts).after

/-- An object type after its keyword, which was on the given line. -/
def object (line : Nat) : Step ObjectType := fun ts => do
  let n ← name final ts
  if n.rest.head?.any (·.token == .name "implements") then
    fail (.interfaces n.value) (lineOf final n.rest)
  else do
    let ds ← directives final n.rest
    let brace ← punct final '{' ds.rest
    let fs ← upTo '}' (field final n.value) brace.rest
    return n.after (ds.after (brace.after
      (fs.map fun fs => ⟨n.value, ds.value, fs, line⟩)))

/-- An enum after its keyword, which was on the given line. -/
def enum (line : Nat) : Step EnumType := fun ts => do
  let n ← name final ts
  if startsWith '@' n.rest then fail (.enumDirectives n.value) (lineOf final n.rest)
  else do
    let brace ← punct final '{' n.rest
    let vs ← upTo '}' (enumValue final) brace.rest
    return n.after (brace.after (vs.map fun vs => ⟨n.value, vs, line⟩))

/-- Keywords of definitions that the language has and this compiler does not take. -/
def unsupportedKeywords : List String :=
  ["input", "interface", "union", "scalar", "schema", "extend", "directive"]

def definition : Step Definition := fun ts => do
  let keyword ← name final ts
  let line := lineOf final ts
  if keyword.value = "type" then do
    let o ← object final line keyword.rest
    return keyword.after (o.map .object)
  else if keyword.value = "enum" then do
    let e ← enum final line keyword.rest
    return keyword.after (e.map .enum)
  else if unsupportedKeywords.contains keyword.value then
    fail (.unsupportedDefinition keyword.value) line
  else fail (.expectedDefinition keyword.value) line

def definitions (ts : List Lexeme) : Except SchemaError (List Definition) :=
  if (description ts).rest.isEmpty then .ok []
  else
    match definition final (description ts).rest with
    | .error e => .error e
    | .ok d => (definitions d.rest).map (d.value :: ·)
termination_by ts.length
decreasing_by exact Nat.lt_of_lt_of_le d.shorter (description ts).bounded

end SchemaStack.Parser

namespace SchemaStack

/-- The definitions that a list of tokens spells out. -/
def Schema.ofTokens (ts : List Lexeme) : Except SchemaError Schema :=
  (Parser.definitions (Parser.lastLine ts) ts).map Schema.mk

end SchemaStack
