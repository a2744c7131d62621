import SchemaStack.Proofs.Schema.Written
import Mathlib.Data.List.Forall2
/-!
# Where directives stand

A schema has a directive for every `@` among its tokens, in order, and at each of them one
directive only can be meant. It is read as it is written but for repeated keys: those of arguments
are refused, those of objects are merged.
-/

namespace SchemaStack

/-- The directives on a type and on its fields, in the order of the text. -/
def Definition.directives : Definition → List Directive
  | .object o => o.directives ++ o.fields.flatMap Field.directives
  | .enum _ => []

def Schema.directives (s : Schema) : List Directive := s.definitions.flatMap Definition.directives

namespace Grammar

open SchemaStack.Parser (startsWith)

variable {α : Type} {ts rest : List Lexeme}

/-- The tokens from each `@` on. -/
def directiveMarks (ts : List Lexeme) : List (List Lexeme) := ts.tails.filter (startsWith '@')

/-- The directive is written at the front of the tokens. -/
def Stands (ts : List Lexeme) (w : Directive) : Prop := ∃ rest, WrittenDirective ts w rest

/-- The directive is what comes of the one that is written at the front of the tokens. -/
def Yields (ts : List Lexeme) (d : Directive) : Prop :=
  ∃ w, Stands ts w ∧ w.condensed = d ∧ (Entries.keys w.arguments).Nodup

lemma directiveMarks_at (line : Nat) (ts : List Lexeme) :
    directiveMarks (⟨.punct '@', line⟩ :: ts) =
      (⟨.punct '@', line⟩ :: ts) :: directiveMarks ts := by
  rw [directiveMarks, List.tails, List.filter_cons_of_pos rfl]
  rfl

lemma directiveMarks_cons {l : Lexeme} (h : startsWith '@' (l :: ts) = false) :
    directiveMarks (l :: ts) = directiveMarks ts := by
  rw [directiveMarks, List.tails, List.filter_cons_of_neg (by simp [h])]
  rfl

/-- There is no mark in the phrase. -/
def Unmarked (p : Phrase α) : Prop :=
  ∀ ⦃ts a rest⦄, p ts a rest → directiveMarks ts = directiveMarks rest

/-- The marks in the phrase yield these directives, in order. An opening parenthesis behind the
phrase would belong to the last of them. -/
def Marked (p : Phrase α) (directives : α → List Directive) : Prop :=
  ∀ ⦃ts a rest⦄, p ts a rest → startsWith '(' rest = false →
    startsWith '(' ts = false ∧
      ∃ own, directiveMarks ts = own ++ directiveMarks rest ∧
        List.Forall₂ Yields own (directives a)

lemma unmarked_many {p : Phrase α} (h : Unmarked p) : Unmarked (Many p) := by
  intro ts as rest hmany
  induction hmany with
  | nil => rfl
  | cons head _ ih => exact (h head).trans ih

lemma unmarked_entry {p : Phrase α} (h : Unmarked p) : Unmarked (Entry p) := by
  intro ts e rest hentry
  cases hentry with
  | mk k line colon hvalue =>
    rw [directiveMarks_cons rfl, directiveMarks_cons rfl, h hvalue]

lemma unmarked_bang {t : TypeRef} : Unmarked (Bang t) := by
  intro ts t' rest h
  cases h with
  | absent => rfl
  | present => exact directiveMarks_cons rfl

lemma unmarked_reference : Unmarked Reference := by
  intro ts t rest h
  induction h with
  | named n line bang => rw [directiveMarks_cons rfl, unmarked_bang bang]
  | list line close inner bang ih =>
    rw [directiveMarks_cons rfl, ih, directiveMarks_cons rfl, unmarked_bang bang]

lemma unmarked_value (levels : Nat) : Unmarked (Value levels) := by
  induction levels with
  | zero => exact fun _ _ _ h => h.elim
  | succ levels ih =>
    intro ts v rest h
    cases h with
    | list line close items =>
      rw [directiveMarks_cons rfl, unmarked_many ih items, directiveMarks_cons rfl]
    | object line close entries =>
      rw [directiveMarks_cons rfl, unmarked_many (unmarked_entry ih) entries,
        directiveMarks_cons rfl]
    | _ => exact directiveMarks_cons rfl

/-- The marks of phrases in a row are those of each of them, in order. -/
lemma marked_many {p : Phrase α} {directives : α → List Directive} (h : Marked p directives) :
    Marked (Many p) fun as => as.flatMap directives := by
  intro ts as rest hmany clear
  induction hmany with
  | nil => exact ⟨clear, [], rfl, .nil⟩
  | cons head _ ih =>
    obtain ⟨hmid, own', hown', hall'⟩ := ih clear
    obtain ⟨hts, own, hown, hall⟩ := h head hmid
    refine ⟨hts, own ++ own', ?_, ?_⟩
    · rw [hown, hown', List.append_assoc]
    · exact List.rel_append hall hall'

lemma marked_described {p : Phrase α} {directives : α → List Directive} (h : Marked p directives) :
    Marked (Described p) directives := by
  intro ts a rest hp clear
  cases hp with
  | plain hp => exact h hp clear
  | described s line hp => exact ⟨rfl, (h hp clear).2⟩

/-- A directive has one mark, its own, since its arguments have none. -/
lemma marked_applied : Marked Applied fun d => [d] := by
  intro ts d rest h clear
  cases h with
  | bare n line l =>
    have yields : Yields (⟨.punct '@', line⟩ :: ⟨.name n, l⟩ :: rest) ⟨n, [], line⟩ :=
      ⟨_, ⟨rest, .bare n line l clear⟩, rfl, List.nodup_nil⟩
    refine ⟨rfl, [_], ?_, .cons yields .nil⟩
    rw [directiveMarks_at, directiveMarks_cons rfl]
    rfl
  | @arguments ts _ args n line l opening close entries distinct =>
    obtain ⟨ws, hws, rfl⟩ := lifts_many (lifts_entry (lifts_value _)) entries
    have hmarks := unmarked_many (unmarked_entry (unmarked_value _)) entries
    rw [← Literal.condensedFields_eq_map] at distinct ⊢
    rw [Literal.keys_condensedFields] at distinct
    have stands : Stands (⟨.punct '@', line⟩ :: ⟨.name n, l⟩ :: ⟨.punct '(', opening⟩ :: ts)
        ⟨n, ws, line⟩ := ⟨rest, .arguments n line l opening close hws⟩
    refine ⟨rfl, [_], ?_, .cons ⟨_, stands, rfl, distinct⟩ .nil⟩
    rw [directiveMarks_at, directiveMarks_cons rfl, directiveMarks_cons rfl, hmarks,
      directiveMarks_cons rfl]
    rfl

lemma marked_directives : Marked (Many Applied) id := by
  have same : (fun ds : List Directive => ds.flatMap fun d => [d]) = id :=
    funext List.flatMap_singleton'
  exact same ▸ marked_many marked_applied

lemma marked_field : Marked FieldDefinition Field.directives := by
  intro ts f rest h clear
  cases h with
  | mk n line colon type bounded directives =>
    obtain ⟨_, own, hown, hall⟩ := marked_directives directives clear
    refine ⟨rfl, own, ?_, hall⟩
    rw [directiveMarks_cons rfl, directiveMarks_cons rfl, unmarked_reference type, hown]

lemma unmarked_enumValue : Unmarked (Described EnumValue) := by
  intro ts n rest h
  cases h with
  | plain h =>
    cases h with
    | mk => exact directiveMarks_cons rfl
  | described s line h =>
    cases h with
    | mk => rw [directiveMarks_cons rfl, directiveMarks_cons rfl]

lemma marked_definition : Marked TypeDefinition Definition.directives := by
  intro ts d rest h clear
  cases h with
  | object n line l opening close directives fields =>
    obtain ⟨_, own', hown', hall'⟩ :=
      marked_many (marked_described marked_field) fields rfl
    obtain ⟨_, own, hown, hall⟩ := marked_directives directives rfl
    refine ⟨rfl, own ++ own', ?_, List.rel_append hall hall'⟩
    rw [directiveMarks_cons rfl, directiveMarks_cons rfl, hown, directiveMarks_cons rfl, hown',
      directiveMarks_cons rfl, List.append_assoc]
  | enum n line l opening close values =>
    refine ⟨rfl, [], ?_, .nil⟩
    rw [directiveMarks_cons rfl, directiveMarks_cons rfl, directiveMarks_cons rfl,
      unmarked_many unmarked_enumValue values, directiveMarks_cons rfl]
    rfl

/-- The directives of a document stand at its marks, in the order of the text. -/
lemma yields_of_document {s : Schema} (h : TypeSystemDocument ts s) :
    List.Forall₂ Yields (directiveMarks ts) s.directives := by
  have marked : ∀ {ds rest}, Many (Described TypeDefinition) ts ds rest →
      startsWith '(' rest = false → directiveMarks rest = [] →
        List.Forall₂ Yields (directiveMarks ts) (ds.flatMap Definition.directives) := by
    intro ds rest hds clear hrest
    obtain ⟨_, own, hown, hall⟩ := marked_many (marked_described marked_definition) hds clear
    rwa [hown, hrest, List.append_nil]
  cases h with
  | plain hds => exact marked hds rfl rfl
  | described s line hds => exact marked hds rfl (directiveMarks_cons rfl)

/-- What is written at a mark can be read in one way only. -/
lemma Stands.unique {w w' : Directive} (h : Stands ts w) (h' : Stands ts w') : w = w' := by
  obtain ⟨_, h⟩ := h
  obtain ⟨_, h'⟩ := h'
  exact (determined_directive h h').1

end Grammar

namespace Schema

open Grammar

lemma exists_of_forall₂ {α β : Type} {r : α → β → Prop} {as : List α} {bs : List β}
    (h : List.Forall₂ r as bs) {a : α} (ha : a ∈ as) : ∃ b ∈ bs, r a b := by
  induction h with
  | nil => cases ha
  | @cons a' b as bs head tail ih =>
    rcases List.mem_cons.mp ha with rfl | ha
    · exact ⟨b, List.mem_cons_self, head⟩
    · obtain ⟨b', hb', hr⟩ := ih ha
      exact ⟨b', List.mem_cons_of_mem _ hb', hr⟩

/-- The directives of a text that is accepted are what its marks yield. -/
lemma yields_of_parse {text : String} {ts : List Lexeme} {s : Schema}
    (htokens : Lexer.tokens text = .ok ts) (h : Schema.parse text = .ok s) :
    List.Forall₂ Yields (directiveMarks ts) s.directives := by
  obtain ⟨ts', htokens', hdocument, _⟩ := parse_eq_ok_iff.mp h
  obtain rfl := Except.ok.inj (htokens.symm.trans htokens')
  exact yields_of_document hdocument

/-- Each directive of a text that is accepted is what comes of the one that is written at its mark:
the arguments have distinct keys, and all that is written is kept just if the same holds of the
objects in them. A text in which arguments of one directive have the same key is refused. -/
theorem keeps_written {text : String} {ts : List Lexeme} (htokens : Lexer.tokens text = .ok ts) :
    (∀ s, Schema.parse text = .ok s →
      List.Forall₂ (fun mark d => ∃ w, Stands mark w ∧ (∀ w', Stands mark w' → w' = w) ∧
        (Entries.keys w.arguments).Nodup ∧ d = w.condensed ∧ (d = w ↔ w.Distinct))
        (directiveMarks ts) s.directives) ∧
    ∀ mark ∈ directiveMarks ts, ∀ w, Stands mark w → ¬ (Entries.keys w.arguments).Nodup →
      ∃ e, Schema.parse text = .error e := by
  refine ⟨fun s h => (yields_of_parse htokens h).imp ?_, fun mark hmark w stands repeated => ?_⟩
  · rintro mark d ⟨w, stands, rfl, distinct⟩
    exact ⟨w, stands, fun w' stands' => stands'.unique stands, distinct, rfl,
      w.condensed_eq_self_iff⟩
  · cases hparse : Schema.parse text with
    | error e => exact ⟨e, rfl⟩
    | ok s =>
      obtain ⟨d, _, w', stands', _, distinct⟩ :=
        exists_of_forall₂ (yields_of_parse htokens hparse) hmark
      obtain rfl := stands.unique stands'
      exact absurd distinct repeated

/-- Tokens of a text of one line. -/
def onFirstLine (ts : List Token) : List Lexeme := ts.map fun t => ⟨t, 1⟩

/-- The fields of a type with an ID. -/
def idTokens : List Lexeme := onFirstLine
  [.punct '\x7b', .name "id", .punct ':', .name "ID", .punct '!', .punct '\x7d']

/-- An argument in two places. -/
def twiceText : String := "type Note @auth(rules: 1, rules: 2) \x7b id: ID! \x7d"

def twiceMark : List Lexeme := onFirstLine
  [.punct '@', .name "auth", .punct '(', .name "rules", .punct ':', .int 1, .name "rules",
   .punct ':', .int 2, .punct ')'] ++ idTokens

lemma stands_twice :
    Stands twiceMark ⟨"auth", [("rules", .int 1), ("rules", .int 2)], 1⟩ := by
  have number {n : Int} {ts : List Lexeme} :
      Written maxNesting (⟨.int n, 1⟩ :: ts) (.int n) ts := .other (.int n 1 ts) rfl
  exact ⟨idTokens, .arguments "auth" 1 1 1 1
    (.cons (.mk "rules" 1 1 number) (.cons (.mk "rules" 1 1 number) (.nil _)))⟩

/-- An object in which a key is repeated. -/
def mergedText : String :=
  "type Note @auth(rules: [\x7ballow: groups, groups: [\"Admin\"], groups: [\"Editor\"]\x7d]) " ++
    "\x7b id: ID! \x7d"

def mergedMark : List Lexeme := onFirstLine
  [.punct '@', .name "auth", .punct '(', .name "rules", .punct ':', .punct '[', .punct '\x7b',
   .name "allow", .punct ':', .name "groups", .name "groups", .punct ':', .punct '[',
   .string "Admin", .punct ']', .name "groups", .punct ':', .punct '[', .string "Editor",
   .punct ']', .punct '\x7d', .punct ']', .punct ')'] ++ idTokens

/-- A directive with one rule for groups and these lists of them. -/
def groupsRule (groups : List (List Literal)) : Directive :=
  ⟨"auth", [("rules", .list [.object (("allow", .enum "groups") ::
    groups.map fun g => ("groups", .list g))])], 1⟩

lemma stands_merged : Stands mergedMark (groupsRule [[.string "Admin"], [.string "Editor"]]) := by
  have strategy {ts : List Lexeme} :
      Written 62 (⟨.name "groups", 1⟩ :: ts) (.enum "groups") ts :=
    .other (.enum "groups" 1 ts (by decide)) rfl
  have group {n : String} {ts : List Lexeme} :
      Written 62 (onFirstLine [.punct '[', .string n, .punct ']'] ++ ts) (.list [.string n]) ts :=
    .other (.list 1 1 (.cons (.other (.string n 1 _) rfl) (.nil _))) rfl
  exact ⟨idTokens, .arguments "auth" 1 1 1 1 (.cons (.mk "rules" 1 1
    (.other (.list 1 1 (.cons (.object 1 1 (.cons (.mk "allow" 1 1 strategy)
      (.cons (.mk "groups" 1 1 group) (.cons (.mk "groups" 1 1 group) (.nil _)))))
        (.nil _))) rfl)) (.nil _))⟩

lemma not_distinct_merged : ¬ (groupsRule [[.string "Admin"], [.string "Editor"]]).Distinct := by
  intro h
  have rules := h _ List.mem_cons_self
  cases rules with
  | scalar list => cases list
  | list items =>
    have rule := items _ List.mem_cons_self
    cases rule with
    | scalar _ object => cases object
    | object keys => exact absurd keys (by decide)

/-- The text is split into tokens with this mark only. -/
lemma exists_tokens (text : String) (mark : List Lexeme)
    (h : (Lexer.tokens text).toOption.any (fun ts => directiveMarks ts = [mark]) = true) :
    ∃ ts, Lexer.tokens text = .ok ts ∧ directiveMarks ts = [mark] := by
  obtain ⟨ts, htokens, hmarks⟩ := exists_of_any h
  exact ⟨ts, htokens, of_decide_eq_true hmarks⟩

lemma exists_schema_merged : ∃ s, Schema.parse mergedText = .ok s := by
  have accepted : (Schema.parse mergedText).toOption.any (fun _ => true) = true := by
    decide +kernel
  obtain ⟨s, hparse, _⟩ := exists_of_any accepted
  exact ⟨s, hparse⟩

theorem keeps_written_merged :
    (∃ e, Schema.parse twiceText = .error e) ∧
      ∃ s d, Schema.parse mergedText = .ok s ∧ s.directives = [d] ∧
        d = (groupsRule [[.string "Admin"], [.string "Editor"]]).condensed ∧
        d ≠ groupsRule [[.string "Admin"], [.string "Editor"]] := by
  constructor
  · obtain ⟨ts, htokens, hmarks⟩ := exists_tokens twiceText twiceMark (by decide +kernel)
    obtain ⟨_, refused⟩ := keeps_written htokens
    refine refused twiceMark ?_ _ stands_twice (by decide)
    rw [hmarks]
    exact List.mem_singleton_self _
  · obtain ⟨ts, htokens, hmarks⟩ := exists_tokens mergedText mergedMark (by decide +kernel)
    obtain ⟨s, hparse⟩ := exists_schema_merged
    obtain ⟨kept, _⟩ := keeps_written htokens
    have kept := kept s hparse
    rw [hmarks] at kept
    generalize hds : s.directives = ds at kept
    cases kept with
    | @cons _ d _ _ head tail =>
      cases tail
      obtain ⟨w, _, only, _, condensed, same⟩ := head
      obtain rfl := only _ stands_merged
      exact ⟨s, d, hparse, hds, condensed, mt same.mp not_distinct_merged⟩

/-- The text is accepted, but of the two lists of groups that are written only the second is
read. -/
theorem repeated_key_merged :
    ∃ ts s, Lexer.tokens mergedText = .ok ts ∧ directiveMarks ts = [mergedMark] ∧
      Stands mergedMark (groupsRule [[.string "Admin"], [.string "Editor"]]) ∧
      Schema.parse mergedText = .ok s ∧ s.directives = [groupsRule [[.string "Editor"]]] := by
  obtain ⟨ts, htokens, hmarks⟩ := exists_tokens mergedText mergedMark (by decide +kernel)
  obtain ⟨s, hparse⟩ := exists_schema_merged
  refine ⟨ts, s, htokens, hmarks, stands_merged, hparse, ?_⟩
  have yields := yields_of_parse htokens hparse
  rw [hmarks] at yields
  generalize s.directives = ds at yields
  cases yields with
  | cons head tail =>
    cases tail
    obtain ⟨w, stands, rfl, _⟩ := head
    obtain rfl := stands.unique stands_merged
    rfl

end Schema

end SchemaStack
