import SchemaStack.Proofs.Schema.Documents
/-!
# Where the parts of a schema come from

The grammar makes nothing up: the names and the lines of a schema are those of the tokens it is
derived from. What holds of all names and all lines among the tokens therefore holds throughout
the schema, down to the names in nested values. Each phrase passes this on to what it stands for
and to the tokens behind it.
-/

namespace SchemaStack

/-- What names and lines there are. -/
structure Source where
  name : String → Prop
  line : Nat → Prop

/-- The token is on one of the lines, and if it is a name then it is one of the names. -/
def Lexeme.From (source : Source) (l : Lexeme) : Prop :=
  source.line l.line ∧ ∀ n, l.token = .name n → source.name n

/-- At most one `!` can stand behind a type. -/
def TypeRef.From (source : Source) : TypeRef → Prop
  | .named n => source.name n
  | .list t => t.From source
  | .nonNull t => t.isNonNull = false ∧ t.From source

inductive Literal.From (source : Source) : Literal → Prop
  | string (s : String) : From source (.string s)
  | int (n : Int) : From source (.int n)
  | float (x : Binary64) : From source (.float x)
  | bool (b : Bool) : From source (.bool b)
  | null : From source .null
  | enum {n : String} (h : source.name n) : From source (.enum n)
  | list {items : List Literal} (h : ∀ v ∈ items, From source v) : From source (.list items)
  | object {fields : Entries Literal} (keys : ∀ e ∈ fields, source.name e.1)
      (values : ∀ e ∈ fields, From source e.2) : From source (.object fields)

structure Directive.From (source : Source) (d : Directive) : Prop where
  name : source.name d.name
  arguments : ∀ e ∈ d.arguments, source.name e.1 ∧ e.2.From source
  line : source.line d.line

structure Field.From (source : Source) (f : Field) : Prop where
  name : source.name f.name
  type : f.type.From source
  bounded : f.type.lists ≤ Schema.maxNesting
  directives : ∀ d ∈ f.directives, d.From source
  line : source.line f.line

structure ObjectType.From (source : Source) (o : ObjectType) : Prop where
  name : source.name o.name
  directives : ∀ d ∈ o.directives, d.From source
  fields : ∀ f ∈ o.fields, f.From source
  line : source.line o.line

structure EnumType.From (source : Source) (e : EnumType) : Prop where
  name : source.name e.name
  values : ∀ v ∈ e.values, source.name v
  line : source.line e.line

def Definition.From (source : Source) : Definition → Prop
  | .object o => o.From source
  | .enum e => e.From source

def Schema.From (source : Source) (s : Schema) : Prop := ∀ d ∈ s.definitions, d.From source

namespace Schema

variable {source : Source} {s : Schema}

lemma From.objects (h : s.From source) : ∀ o ∈ s.objects, o.From source := by
  intro o ho
  obtain ⟨d, hd, hobject⟩ := List.mem_filterMap.mp ho
  cases d with
  | object o' =>
    cases hobject
    exact h _ hd
  | enum e => cases hobject

lemma From.enums (h : s.From source) : ∀ e ∈ s.enums, e.From source := by
  intro e he
  obtain ⟨d, hd, henum⟩ := List.mem_filterMap.mp he
  cases d with
  | object o => cases henum
  | enum e' =>
    cases henum
    exact h _ hd

end Schema

namespace Grammar

variable {α : Type} {source : Source} {ts rest : List Lexeme}

/-- If the tokens in front come from the source, then the phrase stands for something with the
property, and the tokens behind it come from the source. -/
def Carries (source : Source) (p : Phrase α) (good : α → Prop) : Prop :=
  ∀ ⦃ts a rest⦄, p ts a rest → (∀ l ∈ ts, l.From source) → good a ∧ ∀ l ∈ rest, l.From source

lemma from_tail {l : Lexeme} (h : ∀ l' ∈ l :: ts, l'.From source) : ∀ l' ∈ ts, l'.From source :=
  (List.forall_mem_cons.mp h).2

lemma name_head {n : String} {line : Nat} (h : ∀ l ∈ ⟨.name n, line⟩ :: ts, l.From source) :
    source.name n :=
  (List.forall_mem_cons.mp h).1.2 n rfl

lemma line_head {l : Lexeme} (h : ∀ l' ∈ l :: ts, l'.From source) : source.line l.line :=
  (List.forall_mem_cons.mp h).1.1

/-- Phrases in a row pass on what each of them does. By induction on the row. -/
lemma carries_many {p : Phrase α} {good : α → Prop} (h : Carries source p good) :
    Carries source (Many p) fun as => ∀ a ∈ as, good a := by
  intro ts as rest hmany hts
  induction hmany with
  | nil => exact ⟨fun a ha => absurd ha List.not_mem_nil, hts⟩
  | cons head tail ih =>
    obtain ⟨hgood, hmid⟩ := h head hts
    obtain ⟨hall, hrest⟩ := ih hmid
    exact ⟨List.forall_mem_cons.mpr ⟨hgood, hall⟩, hrest⟩

lemma carries_described {p : Phrase α} {good : α → Prop} (h : Carries source p good) :
    Carries source (Described p) good := by
  intro ts a rest hp hts
  cases hp with
  | plain hp => exact h hp hts
  | described s line hp => exact h hp (from_tail hts)

/-! ## Types -/

lemma from_of_bang {t t' : TypeRef} (bang : Bang t ts t' rest) (plain : t.isNonNull = false)
    (ht : t.From source) (hts : ∀ l ∈ ts, l.From source) :
    t'.From source ∧ ∀ l ∈ rest, l.From source := by
  cases bang with
  | absent => exact ⟨ht, hts⟩
  | present line => exact ⟨⟨plain, ht⟩, from_tail hts⟩

/-- The names in a type are among its tokens. -/
lemma carries_reference : Carries source Reference (TypeRef.From source) := by
  intro ts t rest h hts
  induction h with
  | named n line bang => exact from_of_bang bang rfl (name_head hts) (from_tail hts)
  | list line close inner bang ih =>
    obtain ⟨hitem, hmid⟩ := ih (from_tail hts)
    exact from_of_bang bang rfl hitem (from_tail hmid)

/-! ## Values -/

/-- Condensing entries drops some and changes none. -/
lemma Condenses.mem {es fields : Entries α} (h : Condenses es fields) :
    ∀ e ∈ fields, e ∈ es := by
  intro e he
  have distinct : (Entries.keys fields).Nodup := by
    rw [h.keys, ← Entries.keys_ofList]
    exact Entries.nodup_keys_ofList es
  have hlast := Entries.get?_of_mem distinct he
  rw [h.last] at hlast
  exact List.mem_reverse.mp (Entries.mem_of_get? hlast)

lemma carries_entry {p : Phrase α} {good : α → Prop} (h : Carries source p good) :
    Carries source (Entry p) fun e => source.name e.1 ∧ good e.2 := by
  intro ts e rest hentry hts
  cases hentry with
  | mk k line colon hvalue =>
    obtain ⟨hgood, hrest⟩ := h hvalue (from_tail (from_tail hts))
    exact ⟨⟨name_head hts, hgood⟩, hrest⟩

/-- By induction on the levels of nesting: the items of a list and the members of an object have one
less. -/
lemma carries_value (levels : Nat) : Carries source (Value levels) (Literal.From source) := by
  induction levels with
  | zero => exact fun _ _ _ h => h.elim
  | succ levels ih =>
    intro ts v rest h hts
    cases h with
    | string s => exact ⟨.string s, from_tail hts⟩
    | int n => exact ⟨.int n, from_tail hts⟩
    | float x => exact ⟨.float x, from_tail hts⟩
    | yes => exact ⟨.bool true, from_tail hts⟩
    | no => exact ⟨.bool false, from_tail hts⟩
    | null => exact ⟨.null, from_tail hts⟩
    | enum => exact ⟨.enum (name_head hts), from_tail hts⟩
    | list line close items =>
      obtain ⟨hitems, hrest⟩ := carries_many ih items (from_tail hts)
      exact ⟨.list hitems, from_tail hrest⟩
    | object line close entries condenses =>
      obtain ⟨hentries, hrest⟩ := carries_many (carries_entry ih) entries (from_tail hts)
      have hfields := fun e he => hentries e (condenses.mem e he)
      exact ⟨.object (fun e he => (hfields e he).1) fun e he => (hfields e he).2, from_tail hrest⟩

/-! ## Definitions -/

/-- A directive has the line of its mark. -/
lemma carries_applied : Carries source Applied (Directive.From source) := by
  intro ts d rest h hts
  cases h with
  | bare n line l ts =>
    have none : ∀ e ∈ ([] : Entries Literal), source.name e.1 ∧ e.2.From source :=
      fun e he => absurd he List.not_mem_nil
    exact ⟨⟨name_head (from_tail hts), none, line_head hts⟩, from_tail (from_tail hts)⟩
  | arguments n line l opening close entries =>
    obtain ⟨harguments, hrest⟩ := carries_many (carries_entry (carries_value Schema.maxNesting))
      entries (from_tail (from_tail (from_tail hts)))
    exact ⟨⟨name_head (from_tail hts), harguments, line_head hts⟩, from_tail hrest⟩

lemma carries_field : Carries source FieldDefinition (Field.From source) := by
  intro ts f rest h hts
  cases h with
  | mk n line colon type bounded directives =>
    obtain ⟨htype, hmid⟩ := carries_reference type (from_tail (from_tail hts))
    obtain ⟨hdirectives, hrest⟩ := carries_many carries_applied directives hmid
    exact ⟨⟨name_head hts, htype, bounded, hdirectives, line_head hts⟩, hrest⟩

lemma carries_enumValue : Carries source EnumValue source.name := by
  intro ts n rest h hts
  cases h with
  | mk => exact ⟨name_head hts, from_tail hts⟩

/-- A definition has the line of its keyword, and everything in it comes from the tokens up to its
closing bracket. -/
lemma carries_definition : Carries source TypeDefinition (Definition.From source) := by
  intro ts d rest h hts
  cases h with
  | object n line l opening close directives fields =>
    have hname := from_tail hts
    obtain ⟨hdirectives, hmid⟩ := carries_many carries_applied directives (from_tail hname)
    obtain ⟨hfields, hrest⟩ :=
      carries_many (carries_described carries_field) fields (from_tail hmid)
    exact ⟨⟨name_head hname, hdirectives, hfields, line_head hts⟩, from_tail hrest⟩
  | enum n line l opening close values =>
    have hname := from_tail hts
    obtain ⟨hvalues, hrest⟩ := carries_many (carries_described carries_enumValue) values
      (from_tail (from_tail hname))
    exact ⟨⟨name_head hname, hvalues, line_head hts⟩, from_tail hrest⟩

/-- What holds of all names and all lines among the tokens of a document holds throughout its
schema. -/
theorem from_of_document {s : Schema} (h : TypeSystemDocument ts s)
    (hts : ∀ l ∈ ts, l.From source) : s.From source := by
  have carries : Carries source (Many (Described TypeDefinition)) fun ds =>
      ∀ d ∈ ds, d.From source := carries_many (carries_described carries_definition)
  cases h with
  | plain ds => exact (carries ds hts).1
  | described _ _ ds => exact (carries ds hts).1

end Grammar

namespace Schema

variable {source : Source}

lemma from_of_ofTokens {ts : List Lexeme} {s : Schema} (h : Schema.ofTokens ts = .ok s)
    (hts : ∀ l ∈ ts, l.From source) : s.From source :=
  Grammar.from_of_document (ofTokens_eq_ok_iff.mp h) hts

lemma from_of_parse {text : String} {s : Schema} (h : Schema.parse text = .ok s)
    (htokens : ∀ ts, Lexer.tokens text = .ok ts → ∀ l ∈ ts, l.From source) : s.From source := by
  obtain ⟨ts, hts, hdocument, _⟩ := parse_eq_ok_iff.mp h
  exact Grammar.from_of_document hdocument (htokens ts hts)

end Schema

end SchemaStack
