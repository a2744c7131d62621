import SchemaStack.Proofs.Schema.Origins
import SchemaStack.Proofs.Schema.Spelling
/-!
# What can be spelled out

A schema is legible if its names are spelled as names and its types could be written down. Every
schema that the grammar derives from tokens of a text is legible, since the grammar takes names as
they are among the tokens.
-/

namespace SchemaStack

open Lexer (IsName Spelled)

/-- At most one `!` can stand behind a type. -/
def TypeRef.Legible : TypeRef → Prop
  | .named n => IsName n
  | .list t => t.Legible
  | .nonNull t => t.isNonNull = false ∧ t.Legible

structure Field.Legible (f : Field) : Prop where
  name : IsName f.name
  type : f.type.Legible
  bounded : f.type.lists ≤ Schema.maxNesting

def Definition.Legible : Definition → Prop
  | .object o => IsName o.name ∧ ∀ f ∈ o.fields, f.Legible
  | .enum e => IsName e.name ∧ ∀ v ∈ e.values, IsName v

def Schema.Legible (s : Schema) : Prop := ∀ d ∈ s.definitions, d.Legible

/-- Tokens of which every name is spelled as one, on any lines. -/
def Source.spelled : Source := ⟨IsName, fun _ => True⟩

lemma from_of_spelled {ts : List Lexeme} (h : Spelled ts) : ∀ l ∈ ts, l.From .spelled :=
  fun l hl => ⟨trivial, h l hl⟩

/-- Every text is made of such tokens. -/
lemma Schema.from_spelled_of_parse {text : String} {s : Schema} (h : Schema.parse text = .ok s) :
    s.From .spelled :=
  from_of_parse h fun _ hts => from_of_spelled (Lexer.spelled_of_tokensFrom hts)

lemma TypeRef.legible_of_from {t : TypeRef} (h : t.From .spelled) : t.Legible := by
  induction t with
  | named n => exact h
  | list t ih => exact ih h
  | nonNull t ih => exact ⟨h.1, ih h.2⟩

lemma Field.legible_of_from {f : Field} (h : f.From .spelled) : f.Legible :=
  ⟨h.name, TypeRef.legible_of_from h.type, h.bounded⟩

lemma Definition.legible_of_from {d : Definition} (h : d.From .spelled) : d.Legible := by
  cases d with
  | object o => exact ⟨h.name, fun f hf => Field.legible_of_from (h.fields f hf)⟩
  | enum e => exact ⟨h.name, h.values⟩

theorem Grammar.legible_of_document {ts : List Lexeme} {s : Schema}
    (h : TypeSystemDocument ts s) (spelled : Spelled ts) : s.Legible :=
  fun d hd => Definition.legible_of_from (from_of_document h (from_of_spelled spelled) d hd)

end SchemaStack
