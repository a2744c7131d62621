import SchemaStack.Proofs.Schema.Grammar
import SchemaStack.Proofs.Schema.Readings
/-!
# The parser and the grammar

A step is sound if whatever it reads is a phrase, and complete if it reads every phrase. The parser
takes as much as it can, so completeness needs that no mark behind the phrase could be taken as
part of it: which marks these are depends on the phrase. A loop has both properties as soon as its
items have them.
-/

namespace SchemaStack.Parser

open Grammar

variable {α : Type} {final : Nat} {ts rest : List Lexeme}

/-- Whatever the step reads is a phrase. -/
def Sound (p : Step α) (q : Phrase α) : Prop :=
  ∀ {ts a rest}, Reads (p ts) a rest → q ts a rest

/-- None of the marks is next. -/
def Clear (marks : List Char) (ts : List Lexeme) : Prop :=
  ∀ c ∈ marks, startsWith c ts = false

/-- The step reads every phrase, unless a mark behind it would be taken as part of it. -/
def Complete (marks : List Char) (p : Step α) (q : Phrase α) : Prop :=
  ∀ {ts a rest}, q ts a rest → Clear marks rest → Reads (p ts) a rest

lemma clear_name (marks : List Char) (n : String) (line : Nat) (ts : List Lexeme) :
    Clear marks (⟨.name n, line⟩ :: ts) := fun _ _ => rfl

lemma clear_string (marks : List Char) (s : String) (line : Nat) (ts : List Lexeme) :
    Clear marks (⟨.string s, line⟩ :: ts) := fun _ _ => rfl

/-- No mark of these is next where another one is. -/
lemma clear_punct {marks : List Char} {c : Char} (h : c ∉ marks) (line : Nat)
    (ts : List Lexeme) : Clear marks (⟨.punct c, line⟩ :: ts) := by
  intro c' hc'
  rw [startsWith_cons, beq_eq_false_iff_ne]
  intro heq
  cases heq
  exact h hc'

/-! ## Loops -/

/-- A loop reads phrases one after another up to its closing mark. -/
lemma upTo_sound {close : Char} {item : Step α} {q : Phrase α} (sound : Sound item q)
    {as : List α} (h : Reads (upTo close item ts) as rest) :
    ∃ line, Many q ts as (⟨.punct close, line⟩ :: rest) := by
  induction as generalizing ts with
  | nil =>
    rcases reads_upTo.mp h with ⟨line, rfl, _⟩ | ⟨_, _, _, _, has, _⟩
    · exact ⟨line, .nil _⟩
    · cases has
  | cons a as ih =>
    rcases reads_upTo.mp h with ⟨_, _, has⟩ | ⟨_, a, mid, as', has, hitem, htail⟩
    · cases has
    · cases has
      obtain ⟨line, hmany⟩ := ih htail
      exact ⟨line, .cons (sound hitem) hmany⟩

/-- A loop reads all its items if none of them starts like its end, and if neither its end nor
another item would be taken as part of the item before. -/
lemma upTo_complete {close : Char} {item : Step α} {marks : List Char} {q : Phrase α}
    (complete : Complete marks item q) (apart : close ∉ marks)
    (starts : ∀ {ts a rest}, q ts a rest → Clear (close :: marks) ts) {as : List α} {line : Nat}
    (h : Many q ts as (⟨.punct close, line⟩ :: rest)) :
    Reads (upTo close item ts) as rest := by
  generalize hend : (⟨.punct close, line⟩ :: rest : List Lexeme) = after at h
  induction h with
  | nil =>
    subst hend
    exact reads_upTo.mpr (Or.inl ⟨line, rfl, rfl⟩)
  | @cons ts mid _ a as head tail ih =>
    have hmid : Clear marks mid := by
      cases tail with
      | nil =>
        subst hend
        exact clear_punct apart _ _
      | cons head' _ => exact fun c hc => starts head' c (List.mem_cons_of_mem _ hc)
    refine reads_upTo.mpr (Or.inr ⟨starts head _ List.mem_cons_self, a, mid, as, rfl, ?_, ?_⟩)
    · exact complete head hmid
    · exact ih hend

/-! ## Types -/

lemma bang_of_withBang {t t' : TypeRef} {mid : List Lexeme} {h : mid.length < ts.length}
    {h' : rest.length < ts.length} (heq : withBang ⟨t, mid, h⟩ = ⟨t', rest, h'⟩) :
    Bang t mid t' rest ∧ t'.lists = t.lists := by
  cases mid with
  | nil =>
    cases heq
    exact ⟨.absent _, rfl⟩
  | cons l mid =>
    obtain ⟨token, line⟩ := l
    rw [withBang] at heq
    split at heq
    · rename_i htoken
      cases htoken
      cases heq
      exact ⟨.present line _, rfl⟩
    · cases heq
      exact ⟨.absent _, rfl⟩

/-- A `!` is taken wherever there is one, so none may be left behind the type. -/
lemma withBang_of_bang {t t' : TypeRef} {mid : List Lexeme} (h : mid.length < ts.length)
    (bang : Bang t mid t' rest) (clear : Clear ['!'] rest) :
    ∃ h', withBang ⟨t, mid, h⟩ = ⟨t', rest, h'⟩ := by
  cases bang with
  | absent =>
    cases rest with
    | nil => exact ⟨h, rfl⟩
    | cons l rest =>
      have hl := clear '!' List.mem_cons_self
      rw [startsWith_cons, beq_eq_false_iff_ne] at hl
      exact ⟨h, by rw [withBang, if_neg hl]⟩
  | present line => exact ⟨Nat.lt_of_succ_lt h, by rw [withBang, if_pos rfl]⟩

lemma reference_of_name {l : Lexeme} {t : TypeRef}
    (h : Reads ((name final (l :: ts)).map fun n => withBang (n.map .named)) t rest) :
    Reference (l :: ts) t rest ∧ t.lists = 0 := by
  obtain ⟨_, h⟩ := h
  obtain ⟨⟨n, mid, hmid⟩, hn, h⟩ := map_eq_ok h
  obtain ⟨line, hts⟩ := reads_name.mp ⟨_, hn⟩
  cases hts
  obtain ⟨bang, hlists⟩ := bang_of_withBang h
  exact ⟨.named n line bang, hlists⟩

/-- What is read as a type is the phrase of one, with no more lists in it than the levels that are
left. -/
lemma typeRef_sound {depth : Nat} {t : TypeRef} (h : Reads (typeRef final depth ts) t rest) :
    Reference ts t rest ∧ t.lists ≤ depth := by
  induction depth generalizing ts t rest with
  | zero =>
    cases ts with
    | nil =>
      obtain ⟨_, h⟩ := h
      cases h
    | cons l ts =>
      rw [typeRef] at h
      split at h
      · obtain ⟨_, h⟩ := h
        cases h
      · obtain ⟨href, hlists⟩ := reference_of_name h
        exact ⟨href, Nat.le_trans (Nat.le_of_eq hlists) (Nat.zero_le _)⟩
  | succ depth ih =>
    cases ts with
    | nil =>
      obtain ⟨_, h⟩ := h
      cases h
    | cons l ts =>
      rw [typeRef] at h
      split at h
      · rename_i htoken
        obtain ⟨token, line⟩ := l
        cases htoken
        obtain ⟨_, h⟩ := h
        obtain ⟨⟨item, mid, hmid⟩, hitem, h⟩ := bind_eq_ok h
        obtain ⟨⟨_, after, hafter⟩, hclose, h⟩ := bind_eq_ok h
        obtain ⟨close, rfl⟩ := reads_punct.mp ⟨_, hclose⟩
        obtain ⟨inner, hdepth⟩ := ih ⟨_, hitem⟩
        obtain ⟨bang, hlists⟩ := bang_of_withBang (Except.ok.inj h)
        exact ⟨.list line close inner bang,
          Nat.le_trans (Nat.le_of_eq hlists) (Nat.succ_le_succ hdepth)⟩
      · obtain ⟨href, hlists⟩ := reference_of_name h
        exact ⟨href, Nat.le_trans (Nat.le_of_eq hlists) (Nat.zero_le _)⟩

lemma lists_of_bang {t t' : TypeRef} (bang : Bang t ts t' rest) : t'.lists = t.lists := by
  cases bang <;> rfl

/-- By induction on the phrase. The bracket that closes a list keeps the `!` behind it from the
item. -/
lemma typeRef_complete (final : Nat) {depth : Nat} {t : TypeRef} (h : Reference ts t rest)
    (bounded : t.lists ≤ depth) (clear : Clear ['!'] rest) :
    Reads (typeRef final depth ts) t rest := by
  induction h generalizing depth with
  | @named ts rest t n line bang =>
    have shorter : ts.length < (⟨.name n, line⟩ :: ts : List Lexeme).length :=
      Nat.lt_succ_self _
    obtain ⟨h', hbang⟩ := withBang_of_bang shorter bang clear
    refine ⟨h', ?_⟩
    cases depth with
    | zero => exact congrArg Except.ok hbang
    | succ depth => exact congrArg Except.ok hbang
  | @list ts mid rest item t line close inner bang ih =>
    rw [lists_of_bang bang] at bounded
    cases depth with
    | zero => exact absurd bounded (Nat.not_succ_le_zero _)
    | succ depth =>
      have closes : Clear ['!'] (⟨.punct ']', close⟩ :: mid) := clear_punct (by decide) _ _
      obtain ⟨hmid, hitem⟩ := ih (Nat.le_of_succ_le_succ bounded) closes
      have shorter : mid.length < (⟨.punct '[', line⟩ :: ts : List Lexeme).length :=
        Nat.lt_trans (Nat.lt_succ_self _) (Nat.lt_succ_of_lt hmid)
      obtain ⟨h', hbang⟩ := withBang_of_bang shorter bang clear
      refine ⟨h', ?_⟩
      simp only [typeRef, if_true, hitem, ok_bind, punct_cons]
      exact congrArg Except.ok hbang

/-! ## Values -/

/-- A member is read exactly if its value is. -/
lemma reads_entry {value : Step Literal} {q : Phrase Literal}
    (reads : ∀ {ts v rest}, Reads (value ts) v rest ↔ q ts v rest) {e : String × Literal} :
    Reads (entry final value ts) e rest ↔ Entry q ts e rest := by
  constructor
  · rintro ⟨_, h⟩
    obtain ⟨⟨k, mid, _⟩, hkey, h⟩ := bind_eq_ok h
    obtain ⟨⟨_, mid', _⟩, hcolon, h⟩ := bind_eq_ok h
    obtain ⟨⟨v, after, _⟩, hv, h⟩ := bind_eq_ok h
    obtain ⟨line, rfl⟩ := reads_name.mp ⟨_, hkey⟩
    obtain ⟨colon, rfl⟩ := reads_punct.mp ⟨_, hcolon⟩
    cases h
    exact .mk k line colon (reads.mp ⟨_, hv⟩)
  · rintro ⟨k, line, colon, hvalue⟩
    obtain ⟨hv, hread⟩ := reads.mpr hvalue
    refine ⟨Nat.lt_succ_of_lt (Nat.lt_succ_of_lt hv), ?_⟩
    simp only [entry, name_cons, punct_cons, ok_bind, Reading.head, hread]
    rfl

lemma valueOf_name (part : Phrase Literal) (n : String) (line : Nat) (ts : List Lexeme) :
    ValueOf part (⟨.name n, line⟩ :: ts) (literalOfName n) ts := by
  by_cases htrue : n = "true"
  · subst htrue
    exact .yes line ts
  by_cases hfalse : n = "false"
  · subst hfalse
    exact .no line ts
  by_cases hnull : n = "null"
  · subst hnull
    exact .null line ts
  · rw [literalOfName, if_neg htrue, if_neg hfalse, if_neg hnull]
    exact .enum n line ts (by simp [htrue, hfalse, hnull])

lemma literalOfName_bare {n : String} (bare : n ∉ ["true", "false", "null"]) :
    literalOfName n = .enum n := by
  simp only [List.mem_cons, List.not_mem_nil, or_false, not_or] at bare
  rw [literalOfName, if_neg bare.1, if_neg bare.2.1, if_neg bare.2.2]

lemma condenses_ofList (es : Entries α) : Condenses es (Entries.ofList es) :=
  ⟨Entries.keys_ofList es, Entries.get?_ofList es⟩

/-- Entries are condensed in one way only: each key at its first place, with its last value. -/
lemma eq_ofList_of_condenses {es fields : Entries α} (h : Condenses es fields) :
    fields = Entries.ofList es := by
  refine Entries.eq_of_keys_of_get? (Entries.nodup_keys_ofList es) ?_ fun k => ?_
  · rw [h.keys, Entries.keys_ofList]
  · rw [h.last, Entries.get?_ofList]

lemma clear_entry {marks : List Char} {q : Phrase α} {e : String × α} (h : Entry q ts e rest) :
    Clear marks ts := by
  cases h with
  | mk k line colon => exact clear_name _ _ _ _

/-- No value starts like the end of a list. -/
lemma clear_value {depth : Nat} {v : Literal} (h : Value depth ts v rest) :
    Clear [']'] ts := by
  cases depth with
  | zero => cases h
  | succ depth =>
    cases h with
    | string => exact clear_string _ _ _ _
    | int => exact fun _ _ => rfl
    | float => exact fun _ _ => rfl
    | yes => exact clear_name _ _ _ _
    | no => exact clear_name _ _ _ _
    | null => exact clear_name _ _ _ _
    | enum => exact clear_name _ _ _ _
    | list => exact clear_punct (by decide) _ _
    | object => exact clear_punct (by decide) _ _

/-- One level of a value, where the levels below are read exactly as they are written. -/
lemma value_of_reads {depth : Nat} {v : Literal}
    (parts : ∀ {ts v rest}, Reads (literal final depth ts) v rest ↔ Value depth ts v rest)
    (h : Reads (literal final (depth + 1) ts) v rest) : Value (depth + 1) ts v rest := by
  obtain ⟨_, h⟩ := h
  cases ts with
  | nil => cases h
  | cons l ts =>
    obtain ⟨token, line⟩ := l
    rw [literal] at h
    split at h
    · rename_i htoken
      cases htoken
      cases h
      exact .string _ _ _
    · rename_i htoken
      cases htoken
      cases h
      exact .int _ _ _
    · rename_i htoken
      cases htoken
      cases h
      exact .float _ _ _
    · rename_i htoken
      cases htoken
      cases h
      exact valueOf_name _ _ _ _
    · rename_i htoken
      cases htoken
      obtain ⟨⟨vs, _, _⟩, hvs, h⟩ := map_eq_ok h
      cases h
      obtain ⟨close, items⟩ := upTo_sound parts.mp ⟨_, hvs⟩
      exact .list line close items
    · rename_i htoken
      cases htoken
      obtain ⟨⟨es, _, _⟩, hes, h⟩ := map_eq_ok h
      cases h
      obtain ⟨close, entries⟩ := upTo_sound (reads_entry parts).mp ⟨_, hes⟩
      exact .object line close entries (condenses_ofList es)
    · cases h

lemma reads_of_value {depth : Nat} {v : Literal}
    (parts : ∀ {ts v rest}, Reads (literal final depth ts) v rest ↔ Value depth ts v rest)
    (h : Value (depth + 1) ts v rest) : Reads (literal final (depth + 1) ts) v rest := by
  cases h with
  | string s line => exact ⟨_, rfl⟩
  | int n line => exact ⟨_, rfl⟩
  | float x line => exact ⟨_, rfl⟩
  | yes line => exact ⟨_, rfl⟩
  | no line => exact ⟨_, rfl⟩
  | null line => exact ⟨_, rfl⟩
  | enum n line _ bare =>
    rw [← literalOfName_bare bare]
    exact ⟨_, rfl⟩
  | list line close items =>
    have complete : Complete [] (literal final depth) (Value depth) := fun h _ => parts.mpr h
    obtain ⟨hrest, hitems⟩ := upTo_complete complete List.not_mem_nil clear_value items
    refine ⟨Nat.lt_succ_of_lt hrest, ?_⟩
    simp only [literal, hitems]
    rfl
  | object line close entries condenses =>
    have complete : Complete [] (entry final (literal final depth)) (Entry (Value depth)) :=
      fun h _ => (reads_entry parts).mpr h
    obtain ⟨hrest, hentries⟩ := upTo_complete complete List.not_mem_nil clear_entry entries
    refine ⟨Nat.lt_succ_of_lt hrest, ?_⟩
    simp only [literal, hentries, eq_ofList_of_condenses condenses]
    rfl

/-- Values are read exactly as they are written, whatever comes behind them. -/
lemma reads_literal {depth : Nat} {v : Literal} :
    Reads (literal final depth ts) v rest ↔ Value depth ts v rest := by
  induction depth generalizing ts v rest with
  | zero =>
    constructor
    · rintro ⟨_, h⟩
      rw [literal] at h
      cases h
    · exact False.elim
  | succ depth ih => exact ⟨value_of_reads ih, reads_of_value ih⟩

/-! ## Directives -/

/-- Arguments that are read are entries up to the bracket, behind those that were read before, and
no name is among them twice. -/
lemma arguments_sound {n : String} {acc args : Entries Literal}
    (h : Reads (arguments final n acc ts) args rest) :
    ∃ es close, args = acc ++ es ∧
      Many (Entry (Value Schema.maxNesting)) ts es (⟨.punct ')', close⟩ :: rest) ∧
        (acc.keys.Nodup → args.keys.Nodup) := by
  induction hlength : ts.length using Nat.strongRecOn generalizing ts acc with
  | _ length ih =>
    subst hlength
    rcases reads_arguments.mp h with ⟨close, rfl, rfl⟩ | ⟨_, e, mid, hentry, hnew, htail⟩
    · exact ⟨[], close, (List.append_nil _).symm, .nil _, id⟩
    · obtain ⟨hmid, hread⟩ := hentry
      obtain ⟨es, close, rfl, hmany, hdistinct⟩ := ih _ hmid htail rfl
      refine ⟨e :: es, close, List.append_assoc _ _ _,
        .cons ((reads_entry reads_literal).mp ⟨hmid, hread⟩) hmany, fun hacc => hdistinct ?_⟩
      rw [Entries.keys_append, List.nodup_append]
      refine ⟨hacc, by simp, fun a ha b hb => ?_⟩
      rw [List.mem_singleton.mp hb]
      exact fun heq => hnew (heq ▸ ha)

/-- Entries up to the bracket are read if no name comes twice, those from before included. -/
lemma arguments_complete {n : String} {acc es : Entries Literal} {close : Nat}
    (h : Many (Entry (Value Schema.maxNesting)) ts es (⟨.punct ')', close⟩ :: rest))
    (distinct : (acc ++ es).keys.Nodup) :
    Reads (arguments final n acc ts) (acc ++ es) rest := by
  generalize hend : (⟨.punct ')', close⟩ :: rest : List Lexeme) = after at h
  induction h generalizing acc with
  | nil =>
    subst hend
    exact reads_arguments.mpr (Or.inl ⟨close, rfl, List.append_nil _⟩)
  | @cons ts mid _ e es head tail ih =>
    have hnew : e.1 ∉ acc.keys := by
      rw [Entries.keys_append, Entries.keys_cons, List.nodup_append] at distinct
      exact fun hmem => distinct.2.2 _ hmem _ List.mem_cons_self rfl
    have hassoc : acc ++ e :: es = acc ++ [e] ++ es := by rw [List.append_assoc]; rfl
    refine reads_arguments.mpr (Or.inr ⟨clear_entry head _ (List.mem_singleton_self _), e, mid,
      (reads_entry reads_literal).mpr head, hnew, ?_⟩)
    rw [hassoc]
    exact ih (hassoc ▸ distinct) hend

lemma directive_sound {line : Nat} {d : Directive} (h : Reads (directive final line ts) d rest) :
    Applied (⟨.punct '@', line⟩ :: ts) d rest := by
  rcases reads_directive.mp h with ⟨n, l, rfl, _, rfl⟩ | ⟨n, l, opening, mid, args, rfl, rfl, hargs⟩
  · exact .bare n line l rest
  · obtain ⟨es, close, rfl, hmany, hdistinct⟩ := arguments_sound hargs
    exact .arguments n line l opening close hmany (hdistinct List.nodup_nil)

/-- A directive without arguments is read as one if no bracket is next. -/
lemma directive_complete {line : Nat} {d : Directive}
    (h : Applied (⟨.punct '@', line⟩ :: ts) d rest) (clear : Clear ['('] rest) :
    Reads (directive final line ts) d rest := by
  cases h with
  | bare n _ l =>
    exact reads_directive.mpr (Or.inl ⟨n, l, rfl, clear '(' List.mem_cons_self, rfl⟩)
  | arguments n _ l opening close entries distinct =>
    exact reads_directive.mpr (Or.inr ⟨n, l, opening, _, _, rfl, rfl,
      arguments_complete entries distinct⟩)

lemma directives_sound {ds : List Directive} (h : Leaves (directives final ts) ds rest) :
    Many Applied ts ds rest := by
  induction ds generalizing ts with
  | nil =>
    rcases leaves_directives.mp h with ⟨_, _, rfl⟩ | ⟨_, _, _, _, _, _, hds, _⟩
    · exact .nil _
    · cases hds
  | cons d ds ih =>
    rcases leaves_directives.mp h with ⟨_, hds, _⟩ | ⟨line, mid, _, mid', _, rfl, hds, hd, htail⟩
    · cases hds
    · cases hds
      exact .cons (directive_sound hd) (ih htail)

lemma clear_applied {marks : List Char} {ds : List Directive} (h : Many Applied ts ds rest)
    (apart : '@' ∉ marks) (clear : Clear marks rest) : Clear marks ts := by
  cases h with
  | nil => exact clear
  | cons head _ =>
    cases head with
    | bare => exact clear_punct apart _ _
    | arguments => exact clear_punct apart _ _

/-- Directives are all read if what is behind them starts neither another one nor arguments. -/
lemma directives_complete (final : Nat) {ds : List Directive} (h : Many Applied ts ds rest)
    (clear : Clear ['@', '('] rest) : Leaves (directives final ts) ds rest := by
  induction h with
  | nil => exact leaves_directives.mpr (Or.inl ⟨clear '@' List.mem_cons_self, rfl, rfl⟩)
  | @cons ts mid rest d ds head tail ih =>
    have hmid : Clear ['('] mid :=
      clear_applied tail (by decide) fun c hc => clear c (List.mem_cons_of_mem _ hc)
    obtain ⟨line, mid', rfl⟩ : ∃ line mid', ts = ⟨.punct '@', line⟩ :: mid' := by
      cases head with
      | bare n line l => exact ⟨line, _, rfl⟩
      | arguments n line l => exact ⟨line, _, rfl⟩
    exact leaves_directives.mpr (Or.inr ⟨line, mid', d, mid, ds, rfl, rfl,
      directive_complete head hmid, ih clear⟩)

end SchemaStack.Parser
