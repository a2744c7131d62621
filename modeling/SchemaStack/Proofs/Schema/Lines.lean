import SchemaStack.Proofs.Schema.RoundTrip
/-!
# Lines of tokens

What a list of tokens is a document for depends on its lines in nothing but the lines of the schema.
A derivation for one list is followed step by step for a list with the same tokens on other lines.
-/

namespace SchemaStack

/-- The same tokens, each on some line. -/
def SameTokens (ts ts' : List Lexeme) : Prop := ts'.map Lexeme.token = ts.map Lexeme.token

/-- Only the line of a token can be another one. -/
lemma SameTokens.exists_cons {t : Token} {line : Nat} {ts ts' : List Lexeme}
    (h : SameTokens (⟨t, line⟩ :: ts) ts') :
    ∃ line' rest, ts' = ⟨t, line'⟩ :: rest ∧ SameTokens ts rest := by
  obtain ⟨⟨_, line'⟩, rest, rfl, rfl, hrest⟩ := List.map_eq_cons_iff.mp h
  exact ⟨line', rest, rfl, hrest⟩

namespace Grammar

variable {α β : Type}

/-- On other lines, the phrase stands for something that is the same up to its lines. -/
def Moves (p : Phrase α) (unplaced : α → β) : Prop :=
  ∀ ⦃ts a rest⦄, p ts a rest → ∀ ts', SameTokens ts ts' →
    ∃ a' rest', p ts' a' rest' ∧ unplaced a' = unplaced a ∧ SameTokens rest rest'

lemma moves_many {p : Phrase α} {unplaced : α → β} (h : Moves p unplaced) :
    Moves (Many p) (List.map unplaced) := by
  intro ts as rest hmany
  induction hmany with
  | nil => exact fun ts' same => ⟨[], ts', .nil ts', rfl, same⟩
  | cons head tail ih =>
    intro ts' same
    obtain ⟨a', mid', head', ha, hmid⟩ := h head ts' same
    obtain ⟨as', rest', tail', has, hrest⟩ := ih mid' hmid
    exact ⟨a' :: as', rest', .cons head' tail', by rw [List.map_cons, ha, has]; rfl, hrest⟩

/-- Phrases for things without lines keep what they stand for. -/
lemma Moves.many {p : Phrase α} (h : Moves p id) : Moves (Many p) id := by
  have hmany := moves_many h
  rwa [List.map_id_fun] at hmany

lemma moves_described {p : Phrase α} {unplaced : α → β} (h : Moves p unplaced) :
    Moves (Described p) unplaced := by
  intro ts a rest hp ts' same
  cases hp with
  | plain hp =>
    obtain ⟨a', rest', hp', ha, hrest⟩ := h hp ts' same
    exact ⟨a', rest', .plain hp', ha, hrest⟩
  | described s line hp =>
    obtain ⟨line', mid, rfl, hmid⟩ := same.exists_cons
    obtain ⟨a', rest', hp', ha, hrest⟩ := h hp mid hmid
    exact ⟨a', rest', .described s line' hp', ha, hrest⟩

/-! ## Types -/

lemma moves_bang (t : TypeRef) : Moves (Bang t) id := by
  intro ts t' rest bang ts' same
  cases bang with
  | absent => exact ⟨t, ts', .absent ts', rfl, same⟩
  | present line =>
    obtain ⟨line', rest', rfl, hrest⟩ := same.exists_cons
    exact ⟨_, rest', .present line' rest', rfl, hrest⟩

lemma moves_reference : Moves Reference id := by
  intro ts t rest h
  induction h with
  | named n line bang =>
    intro ts' same
    obtain ⟨line', mid, rfl, hmid⟩ := same.exists_cons
    obtain ⟨t', rest', bang', ht, hrest⟩ := moves_bang _ bang mid hmid
    exact ⟨t', rest', .named n line' bang', ht, hrest⟩
  | @list _ _ _ item _ line close inner bang ih =>
    intro ts' same
    obtain ⟨line', mid, rfl, hmid⟩ := same.exists_cons
    obtain ⟨item', closing, inner', hitem, hclosing⟩ := ih mid hmid
    obtain rfl : item' = item := hitem
    obtain ⟨close', after, rfl, hafter⟩ := hclosing.exists_cons
    obtain ⟨t', rest', bang', ht, hrest⟩ := moves_bang _ bang after hafter
    exact ⟨t', rest', .list line' close' inner' bang', ht, hrest⟩

/-! ## Values -/

lemma moves_entry {p : Phrase α} (h : Moves p id) : Moves (Entry p) id := by
  intro ts e rest hentry ts' same
  cases hentry with
  | @mk _ _ a k line colon hvalue =>
    obtain ⟨line', _, rfl, hcolon⟩ := same.exists_cons
    obtain ⟨colon', mid, rfl, hmid⟩ := hcolon.exists_cons
    obtain ⟨a', rest', hvalue', ha, hrest⟩ := h hvalue mid hmid
    exact ⟨(k, a'), rest', .mk k line' colon' hvalue', congrArg (Prod.mk k) ha, hrest⟩

/-- Values have no lines. By induction on the levels of nesting. -/
lemma moves_value (levels : Nat) : Moves (Value levels) id := by
  induction levels with
  | zero => exact fun _ _ _ h => h.elim
  | succ levels ih =>
    intro ts v rest h ts' same
    cases h with
    | string s =>
      obtain ⟨line', rest', rfl, hrest⟩ := same.exists_cons
      exact ⟨_, rest', .string s line' rest', rfl, hrest⟩
    | int n =>
      obtain ⟨line', rest', rfl, hrest⟩ := same.exists_cons
      exact ⟨_, rest', .int n line' rest', rfl, hrest⟩
    | float x =>
      obtain ⟨line', rest', rfl, hrest⟩ := same.exists_cons
      exact ⟨_, rest', .float x line' rest', rfl, hrest⟩
    | yes =>
      obtain ⟨line', rest', rfl, hrest⟩ := same.exists_cons
      exact ⟨_, rest', .yes line' rest', rfl, hrest⟩
    | no =>
      obtain ⟨line', rest', rfl, hrest⟩ := same.exists_cons
      exact ⟨_, rest', .no line' rest', rfl, hrest⟩
    | null =>
      obtain ⟨line', rest', rfl, hrest⟩ := same.exists_cons
      exact ⟨_, rest', .null line' rest', rfl, hrest⟩
    | enum n _ _ bare =>
      obtain ⟨line', rest', rfl, hrest⟩ := same.exists_cons
      exact ⟨_, rest', .enum n line' rest' bare, rfl, hrest⟩
    | @list _ _ vs line close items =>
      obtain ⟨line', mid, rfl, hmid⟩ := same.exists_cons
      obtain ⟨vs', closing, items', hvs, hclosing⟩ := ih.many items mid hmid
      obtain ⟨close', rest', rfl, hrest⟩ := hclosing.exists_cons
      exact ⟨.list vs', rest', .list line' close' items', congrArg Literal.list hvs, hrest⟩
    | @object _ _ es fields line close entries condenses =>
      obtain ⟨line', mid, rfl, hmid⟩ := same.exists_cons
      obtain ⟨es', closing, entries', hes, hclosing⟩ := (moves_entry ih).many entries mid hmid
      obtain rfl : es' = es := hes
      obtain ⟨close', rest', rfl, hrest⟩ := hclosing.exists_cons
      exact ⟨.object fields, rest', .object line' close' entries' condenses, rfl, hrest⟩

/-! ## Definitions -/

lemma moves_applied : Moves Applied fun d => { d with line := 0 } := by
  intro ts d rest h ts' same
  cases h with
  | bare n line l =>
    obtain ⟨line', _, rfl, hname⟩ := same.exists_cons
    obtain ⟨l', rest', rfl, hrest⟩ := hname.exists_cons
    exact ⟨_, rest', .bare n line' l' rest', rfl, hrest⟩
  | @arguments _ _ args n line l opening close entries distinct =>
    obtain ⟨line', _, rfl, hname⟩ := same.exists_cons
    obtain ⟨l', _, rfl, hopening⟩ := hname.exists_cons
    obtain ⟨opening', mid, rfl, hmid⟩ := hopening.exists_cons
    obtain ⟨args', closing, entries', hargs, hclosing⟩ :=
      (moves_entry (moves_value Schema.maxNesting)).many entries mid hmid
    obtain rfl : args' = args := hargs
    obtain ⟨close', rest', rfl, hrest⟩ := hclosing.exists_cons
    exact ⟨_, rest', .arguments n line' l' opening' close' entries' distinct, rfl, hrest⟩

lemma moves_fieldDefinition :
    Moves FieldDefinition (Field.annotate unplacedDirectives fun _ => 0) := by
  intro ts f rest h ts' same
  cases h with
  | @mk _ _ _ t ds n line colon type bounded directives =>
    obtain ⟨line', _, rfl, hcolon⟩ := same.exists_cons
    obtain ⟨colon', mid, rfl, hmid⟩ := hcolon.exists_cons
    obtain ⟨t', after, type', ht, hafter⟩ := moves_reference type mid hmid
    obtain rfl : t' = t := ht
    obtain ⟨ds', rest', directives', hds, hrest⟩ := moves_many moves_applied directives after hafter
    refine ⟨_, rest', .mk n line' colon' type' bounded directives', ?_, hrest⟩
    exact congrArg (Field.mk n t' · 0) hds

lemma moves_enumValue : Moves EnumValue id := by
  intro ts n rest h ts' same
  cases h with
  | mk n line =>
    obtain ⟨line', rest', rfl, hrest⟩ := same.exists_cons
    exact ⟨n, rest', .mk n line' rest', rfl, hrest⟩

lemma moves_typeDefinition :
    Moves TypeDefinition (Definition.annotate unplacedDirectives fun _ => 0) := by
  intro ts d rest h ts' same
  cases h with
  | @object _ _ _ ds fs n line l opening close directives fields =>
    obtain ⟨line', _, rfl, hname⟩ := same.exists_cons
    obtain ⟨l', mid, rfl, hmid⟩ := hname.exists_cons
    obtain ⟨ds', _, directives', hds, hopening⟩ := moves_many moves_applied directives mid hmid
    obtain ⟨opening', body, rfl, hbody⟩ := hopening.exists_cons
    obtain ⟨fs', closing, fields', hfs, hclosing⟩ :=
      moves_many (moves_described moves_fieldDefinition) fields body hbody
    obtain ⟨close', rest', rfl, hrest⟩ := hclosing.exists_cons
    refine ⟨_, rest', .object n line' l' opening' close' directives' fields', ?_, hrest⟩
    exact congrArg₂ (fun ds fs => Definition.object ⟨n, ds, fs, 0⟩) hds hfs
  | @enum _ _ vs n line l opening close values =>
    obtain ⟨line', _, rfl, hname⟩ := same.exists_cons
    obtain ⟨l', _, rfl, hopening⟩ := hname.exists_cons
    obtain ⟨opening', mid, rfl, hmid⟩ := hopening.exists_cons
    obtain ⟨vs', closing, values', hvs, hclosing⟩ :=
      (moves_described moves_enumValue).many values mid hmid
    obtain rfl : vs' = vs := hvs
    obtain ⟨close', rest', rfl, hrest⟩ := hclosing.exists_cons
    exact ⟨_, rest', .enum n line' l' opening' close' values', rfl, hrest⟩

/-- The same tokens on other lines are a document for the same schema on other lines. -/
theorem exists_document_of_sameTokens {ts ts' : List Lexeme} {s : Schema}
    (h : TypeSystemDocument ts s) (same : SameTokens ts ts') :
    ∃ s', TypeSystemDocument ts' s' ∧ s'.unplaced = s.unplaced := by
  have moves := moves_many (moves_described moves_typeDefinition)
  cases h with
  | plain definitions =>
    obtain ⟨ds', rest', definitions', hds, hrest⟩ := moves definitions ts' same
    obtain rfl : rest' = [] := List.map_eq_nil_iff.mp hrest
    exact ⟨⟨ds'⟩, .plain definitions', congrArg Schema.mk hds⟩
  | described text line definitions =>
    obtain ⟨ds', _, definitions', hds, hrest⟩ := moves definitions ts' same
    obtain ⟨line', rest', rfl, hnil⟩ := hrest.exists_cons
    obtain rfl : rest' = [] := List.map_eq_nil_iff.mp hnil
    exact ⟨⟨ds'⟩, .described text line' definitions', congrArg Schema.mk hds⟩

end Grammar

/-- Texts with the same tokens are read as the same schema on other lines. -/
theorem Schema.exists_parse_of_sameTokens {text text' : String} {ls ls' : List Lexeme} {s : Schema}
    (hls : Lexer.tokens text = .ok ls) (hls' : Lexer.tokens text' = .ok ls')
    (same : SameTokens ls ls') (hparse : Schema.parse text = .ok s) :
    ∃ s', Schema.parse text' = .ok s' ∧ s'.unplaced = s.unplaced := by
  obtain ⟨ls₀, hls₀, hdocument, hcheck⟩ := parse_eq_ok_iff.mp hparse
  obtain rfl := Except.ok.inj (hls.symm.trans hls₀)
  obtain ⟨s', hdocument', hunplaced⟩ := Grammar.exists_document_of_sameTokens hdocument same
  have valid_unplaced : ∀ s : Schema, s.unplaced.Valid ↔ s.Valid := fun _ => valid_annotate_iff
  have hcheck' : s'.check = .ok () := by
    rw [check_eq_ok_iff, ← valid_unplaced, hunplaced, valid_unplaced]
    exact check_eq_ok_iff.mp hcheck
  exact ⟨s', parse_eq_ok_iff.mpr ⟨ls', hls', hdocument', hcheck'⟩, hunplaced⟩

end SchemaStack
