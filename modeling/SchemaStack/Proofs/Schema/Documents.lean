import SchemaStack.Schema.Reader
import SchemaStack.Proofs.Schema.Parsing
import Mathlib.Data.Set.Subsingleton
/-!
# Parsing and deriving

The parser accepts exactly the token lists that the grammar derives, with the schema that the
derivation spells out, so no token list has derivations of two schemas.
-/

namespace SchemaStack.Parser

open Grammar

variable {α : Type} {final : Nat} {ts rest : List Lexeme}

/-! ## Fields and enum values -/

lemma reads_described {p : Step α} {a : α} :
    Reads ((p (description ts).rest).map (description ts).after) a rest ↔
      Reads (p (description ts).rest) a rest := by
  constructor
  · rintro ⟨_, h⟩
    obtain ⟨_, hr, h⟩ := map_eq_ok h
    cases h
    exact .of_eq hr
  · rintro ⟨hrest, hp⟩
    exact ⟨Nat.lt_of_lt_of_le hrest (description ts).bounded, by rw [hp]; rfl⟩

/-- A description in front does not count. -/
lemma described_sound {p : Step α} {q : Phrase α} (sound : Sound p q) :
    Sound (fun ts => (p (description ts).rest).map (description ts).after) (Described q) := by
  intro ts a rest h
  have hq := sound (reads_described.mp h)
  rcases rest_description_cases ts with ⟨s, line, hts⟩ | hts
  · rw [hts]
    exact .described s line hq
  · exact .plain (hts ▸ hq)

lemma described_complete {marks : List Char} {p : Step α} {q : Phrase α}
    (complete : Complete marks p q)
    (undescribed : ∀ {ts a rest}, q ts a rest → (description ts).rest = ts) :
    Complete marks (fun ts => (p (description ts).rest).map (description ts).after)
      (Described q) := by
  intro ts a rest h clear
  refine reads_described.mpr (complete ?_ clear)
  cases h with
  | plain h => exact (undescribed h).symm ▸ h
  | described s line h => exact h

lemma clear_described {marks : List Char} {q : Phrase α} {a : α}
    (starts : ∀ {ts a rest}, q ts a rest → Clear marks ts) (h : Described q ts a rest) :
    Clear marks ts := by
  cases h with
  | plain h => exact starts h
  | described => exact clear_string _ _ _ _

lemma fieldBody_sound (type : String) : Sound (fieldBody final type) FieldDefinition := by
  rintro ts f rest ⟨_, h⟩
  obtain ⟨⟨n, mid, _⟩, hn, h⟩ := bind_eq_ok h
  obtain ⟨line, rfl⟩ := reads_name.mp ⟨_, hn⟩
  dsimp only at h
  split at h
  · cases h
  · obtain ⟨⟨_, after, _⟩, hcolon, h⟩ := bind_eq_ok h
    obtain ⟨⟨t, behind, _⟩, ht, h⟩ := bind_eq_ok h
    obtain ⟨⟨ds, _, hds⟩, hdirectives, h⟩ := bind_eq_ok h
    cases h
    obtain ⟨colon, hmid⟩ := reads_punct.mp ⟨_, hcolon⟩
    obtain ⟨type, bounded⟩ := typeRef_sound ⟨_, ht⟩
    have directives := directives_sound ⟨_, hdirectives⟩
    subst hmid
    exact .mk n line colon type bounded directives

/-- Behind a field may stand whatever does not go on with its type, its directives or their
arguments. -/
lemma fieldBody_complete (final : Nat) (type : String) :
    Complete ['!', '@', '('] (fieldBody final type) FieldDefinition := by
  intro ts f rest h clear
  cases h with
  | @mk ts mid _ t ds n line colon type bounded directives =>
    have hbang : Clear ['!'] mid := clear_applied directives (by decide) fun c hc =>
      clear c (List.mem_append_left ['@', '('] hc)
    obtain ⟨hmid, ht⟩ := typeRef_complete final type bounded hbang
    obtain ⟨hrest, hds⟩ := directives_complete final directives fun c hc =>
      clear c (List.mem_cons_of_mem _ hc)
    refine ⟨Nat.lt_of_le_of_lt hrest (Nat.lt_succ_of_lt (Nat.lt_succ_of_lt hmid)), ?_⟩
    simp only [fieldBody, name_cons, ok_bind, Reading.head, startsWith_cons, punct_cons, ht, hds]
    rfl

lemma field_sound (type : String) : Sound (field final type) (Described FieldDefinition) :=
  described_sound (fieldBody_sound type)

lemma field_complete (final : Nat) (type : String) :
    Complete ['!', '@', '('] (field final type) (Described FieldDefinition) := by
  refine described_complete (fieldBody_complete final type) fun h => ?_
  cases h with
  | mk n line colon => rfl

lemma clear_field {marks : List Char} {f : Field} (h : Described FieldDefinition ts f rest) :
    Clear marks ts := by
  refine clear_described (fun h => ?_) h
  cases h with
  | mk n line colon => exact clear_name _ _ _ _

lemma enumValue_sound : Sound (enumValue final) (Described EnumValue) := by
  refine described_sound fun h => ?_
  obtain ⟨line, rfl⟩ := reads_name.mp h
  exact .mk _ line _

lemma enumValue_complete (final : Nat) : Complete [] (enumValue final) (Described EnumValue) := by
  refine described_complete (fun h _ => ?_) fun h => ?_
  · cases h with
    | mk n line => exact reads_name.mpr ⟨line, rfl⟩
  · cases h with
    | mk n line => rfl

lemma clear_enumValue {marks : List Char} {n : String} (h : Described EnumValue ts n rest) :
    Clear marks ts := by
  refine clear_described (fun h => ?_) h
  cases h with
  | mk n line => exact clear_name _ _ _ _

/-! ## Definitions -/

lemma object_sound {line : Nat} {o : ObjectType} (h : Reads (object final line ts) o rest) :
    TypeDefinition (⟨.name "type", line⟩ :: ts) (.object o) rest := by
  obtain ⟨_, h⟩ := h
  obtain ⟨⟨n, mid, _⟩, hn, h⟩ := bind_eq_ok h
  obtain ⟨l, rfl⟩ := reads_name.mp ⟨_, hn⟩
  dsimp only at h
  split at h
  · cases h
  · obtain ⟨⟨ds, behind, _⟩, hds, h⟩ := bind_eq_ok h
    obtain ⟨⟨_, inner, _⟩, hbrace, h⟩ := bind_eq_ok h
    obtain ⟨⟨fs, _, _⟩, hfs, h⟩ := bind_eq_ok h
    cases h
    obtain ⟨opening, rfl⟩ := reads_punct.mp ⟨_, hbrace⟩
    obtain ⟨close, fields⟩ := upTo_sound (field_sound n) ⟨_, hfs⟩
    exact .object n line l opening close (directives_sound ⟨_, hds⟩) fields

/-- Behind the name of an object type there is a directive or its opening brace. -/
lemma head_applied {ds : List Directive} {opening : Nat}
    (h : Many Applied ts ds (⟨.punct '{', opening⟩ :: rest)) :
    ts.head?.any (·.token == .name "implements") = false := by
  cases h with
  | nil => rfl
  | cons head _ =>
    cases head with
    | bare => rfl
    | arguments => rfl

lemma object_complete (final : Nat) (n : String) (line l : Nat) {opening close : Nat}
    {mid : List Lexeme} {ds : List Directive} {fs : List Field}
    (directives : Many Applied ts ds (⟨.punct '{', opening⟩ :: mid))
    (fields : Many (Described FieldDefinition) mid fs (⟨.punct '}', close⟩ :: rest)) :
    Reads (object final line (⟨.name n, l⟩ :: ts)) ⟨n, ds, fs, line⟩ rest := by
  obtain ⟨hmid, hds⟩ := directives_complete final directives
    (clear_punct (by decide) _ _)
  obtain ⟨hrest, hfs⟩ := upTo_complete (field_complete final n) (by decide)
    clear_field fields
  have shorter : rest.length < ts.length := Nat.lt_trans hrest (Nat.lt_of_succ_le hmid)
  refine ⟨Nat.lt_succ_of_lt shorter, ?_⟩
  simp only [object, name_cons, ok_bind, Reading.head, head_applied directives,
    Bool.false_eq_true, if_false, hds, punct_cons, hfs]
  rfl

lemma enum_sound {line : Nat} {e : EnumType} (h : Reads (enum final line ts) e rest) :
    TypeDefinition (⟨.name "enum", line⟩ :: ts) (.enum e) rest := by
  obtain ⟨_, h⟩ := h
  obtain ⟨⟨n, mid, _⟩, hn, h⟩ := bind_eq_ok h
  obtain ⟨l, rfl⟩ := reads_name.mp ⟨_, hn⟩
  dsimp only at h
  split at h
  · cases h
  · obtain ⟨⟨_, inner, _⟩, hbrace, h⟩ := bind_eq_ok h
    obtain ⟨⟨vs, _, _⟩, hvs, h⟩ := bind_eq_ok h
    cases h
    obtain ⟨opening, rfl⟩ := reads_punct.mp ⟨_, hbrace⟩
    obtain ⟨close, values⟩ := upTo_sound enumValue_sound ⟨_, hvs⟩
    exact .enum n line l opening close values

lemma enum_complete (final : Nat) (n : String) (line l opening : Nat) {close : Nat}
    {vs : List String} (values : Many (Described EnumValue) ts vs (⟨.punct '}', close⟩ :: rest)) :
    Reads (enum final line (⟨.name n, l⟩ :: ⟨.punct '{', opening⟩ :: ts)) ⟨n, vs, line⟩ rest := by
  obtain ⟨hrest, hvs⟩ := upTo_complete (enumValue_complete final) List.not_mem_nil
    clear_enumValue values
  have unmarked : startsWith '@' (⟨.punct '{', opening⟩ :: ts) = false := rfl
  refine ⟨Nat.lt_succ_of_lt (Nat.lt_succ_of_lt hrest), ?_⟩
  simp only [enum, name_cons, ok_bind, Reading.head, unmarked, Bool.false_eq_true, if_false,
    punct_cons, hvs]
  rfl

/-- What is read as a definition is one, and its keyword says which. -/
lemma definition_sound : Sound (definition final) TypeDefinition := by
  rintro ts d rest ⟨_, h⟩
  obtain ⟨⟨keyword, mid, _⟩, hkeyword, h⟩ := bind_eq_ok h
  obtain ⟨line, rfl⟩ := reads_name.mp ⟨_, hkeyword⟩
  dsimp only at h
  split at h
  · rename_i htype
    subst htype
    obtain ⟨o, ho, h⟩ := bind_eq_ok h
    cases h
    exact object_sound (.of_eq ho)
  · split at h
    · rename_i henum
      subst henum
      obtain ⟨e, he, h⟩ := bind_eq_ok h
      cases h
      exact enum_sound (.of_eq he)
    · split at h <;> cases h

lemma definition_complete (final : Nat) : Complete [] (definition final) TypeDefinition := by
  intro ts d rest h _
  cases h with
  | object n line l opening close directives fields =>
    obtain ⟨hrest, ho⟩ := object_complete final n line l directives fields
    refine ⟨Nat.lt_succ_of_lt hrest, ?_⟩
    simp only [definition, name_cons, ok_bind, Reading.head, if_true, lineOf, ho]
    rfl
  | enum n line l opening close values =>
    obtain ⟨hrest, he⟩ := enum_complete final n line l opening values
    have different : "enum" ≠ "type" := by decide
    refine ⟨Nat.lt_succ_of_lt hrest, ?_⟩
    simp only [definition, name_cons, ok_bind, Reading.head, if_neg different, if_true, lineOf, he]
    rfl

lemma description_typeDefinition {d : Definition} (h : TypeDefinition ts d rest) :
    (description ts).rest = ts := by
  cases h with
  | object => rfl
  | enum => rfl

lemma description_definition {d : Definition} (h : Described TypeDefinition ts d rest) :
    TypeDefinition (description ts).rest d rest := by
  cases h with
  | plain h => exact (description_typeDefinition h).symm ▸ h
  | described s line h => exact h

/-- By induction on the definitions. The last description may have nothing behind it. -/
lemma definitions_sound {ds : List Definition} (h : definitions final ts = .ok ds) :
    TypeSystemDocument ts ⟨ds⟩ := by
  induction ds generalizing ts with
  | nil =>
    rcases definitions_eq_ok_iff.mp h with ⟨hend, _⟩ | ⟨_, _, _, _, hds, _⟩
    · rcases rest_description_cases ts with ⟨s, line, hts⟩ | hts
      · rw [hts, hend]
        exact .described s line (.nil _)
      · rw [← hts, hend]
        exact .plain (.nil _)
    · cases hds
  | cons d ds ih =>
    rcases definitions_eq_ok_iff.mp h with ⟨_, hds⟩ | ⟨_, _, mid, _, hds, hd, htail⟩
    · cases hds
    · cases hds
      have head : Described TypeDefinition ts d mid := by
        rcases rest_description_cases ts with ⟨s, line, hts⟩ | hts
        · rw [hts]
          exact .described s line (definition_sound hd)
        · exact .plain (hts ▸ definition_sound hd)
      cases ih htail with
      | plain tail => exact .plain (.cons head tail)
      | described s line tail => exact .described s line (.cons head tail)

/-- By induction on the phrase, with what may be left behind the last definition. -/
lemma definitions_complete {ds : List Definition} (h : Many (Described TypeDefinition) ts ds rest)
    (hend : (description rest).rest = []) : definitions final ts = .ok ds := by
  induction h with
  | nil => exact definitions_eq_ok_iff.mpr (Or.inl ⟨hend, rfl⟩)
  | @cons ts mid rest d ds head tail ih =>
    have hd := description_definition head
    obtain ⟨shorter, hread⟩ :=
      definition_complete final hd fun _ hc => absurd hc List.not_mem_nil
    refine definitions_eq_ok_iff.mpr (Or.inr ⟨?_, d, mid, ds, rfl, ⟨shorter, hread⟩, ih hend⟩)
    exact List.ne_nil_of_length_pos (Nat.lt_of_le_of_lt (Nat.zero_le _) shorter)

end SchemaStack.Parser

namespace SchemaStack

open Grammar

lemma ofTokens_eq_ok_iff {ts : List Lexeme} {s : Schema} :
    Schema.ofTokens ts = .ok s ↔ TypeSystemDocument ts s := by
  constructor
  · intro h
    obtain ⟨ds, hds, rfl⟩ := map_eq_ok h
    exact Parser.definitions_sound hds
  · intro h
    cases h with
    | plain hds => rw [Schema.ofTokens, Parser.definitions_complete hds rfl]; rfl
    | described s line hds => rw [Schema.ofTokens, Parser.definitions_complete hds rfl]; rfl

/-- What a text is read as is what its tokens are a document for, if that passes the check. -/
lemma Schema.parse_eq_ok_iff {text : String} {s : Schema} :
    Schema.parse text = .ok s ↔
      ∃ ts, Lexer.tokens text = .ok ts ∧ TypeSystemDocument ts s ∧ s.check = .ok () := by
  constructor
  · intro h
    obtain ⟨ts, htokens, h⟩ := bind_eq_ok h
    obtain ⟨s', hparsed, h⟩ := bind_eq_ok h
    obtain ⟨_, hcheck, h⟩ := bind_eq_ok h
    obtain rfl := Except.ok.inj h
    exact ⟨ts, htokens, ofTokens_eq_ok_iff.mp hparsed, hcheck⟩
  · rintro ⟨ts, htokens, hdocument, hcheck⟩
    rw [Schema.parse, htokens, ok_bind, ofTokens_eq_ok_iff.mpr hdocument, ok_bind, hcheck]
    rfl

/-- Parsing succeeds with a schema just where the tokens are a document for it, and a list of
tokens is a document for one schema at most. -/
theorem Schema.ofTokens_exact (ts : List Lexeme) :
    (∀ s, Schema.ofTokens ts = .ok s ↔ TypeSystemDocument ts s) ∧
      {s | TypeSystemDocument ts s}.Subsingleton := by
  refine ⟨fun s => ofTokens_eq_ok_iff, fun s hs s' hs' => ?_⟩
  have heq : Except.ok s = Except.ok s' :=
    (ofTokens_eq_ok_iff.mpr hs).symm.trans (ofTokens_eq_ok_iff.mpr hs')
  exact Except.ok.inj heq

end SchemaStack
