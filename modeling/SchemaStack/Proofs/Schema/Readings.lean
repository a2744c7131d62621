import SchemaStack.Schema.Parser
import SchemaStack.Proofs.Fallible
import SchemaStack.Proofs.Entries
/-!
# What the steps of the parser read

Each function of the parser in terms of the functions that it calls: which tokens are in front,
what is read from them and which tokens are left. A loop looks for its closing mark first, so the
mark decides between its two cases.
-/

namespace SchemaStack.Parser

variable {α β : Type} {final : Nat} {ts rest : List Lexeme}

/-- The outcome is a reading of the value with these tokens left. -/
def Reads (x : Except SchemaError (Reading α ts)) (a : α) (rest : List Lexeme) : Prop :=
  ∃ shorter, x = .ok ⟨a, rest, shorter⟩

/-- The same where nothing need be taken. -/
def Leaves (x : Except SchemaError (Trailing α ts)) (a : α) (rest : List Lexeme) : Prop :=
  ∃ bounded, x = .ok ⟨a, rest, bounded⟩

lemma Reads.of_eq {x : Except SchemaError (Reading α ts)} {r : Reading α ts} (h : x = .ok r) :
    Reads x r.value r.rest := ⟨r.shorter, h⟩

/-! ## Single tokens -/

lemma startsWith_cons (c : Char) (l : Lexeme) (ts : List Lexeme) :
    startsWith c (l :: ts) = (l.token == .punct c) := rfl

/-- A mark is next just if it is the first of the tokens. -/
lemma startsWith_eq_true_iff {c : Char} :
    startsWith c ts = true ↔ ∃ line rest, ts = ⟨.punct c, line⟩ :: rest := by
  cases ts with
  | nil => simp [startsWith]
  | cons l ts =>
    obtain ⟨token, line⟩ := l
    simp [startsWith_cons]

lemma mark?_eq_none {c : Char} (h : startsWith c ts = false) : mark? c ts = none := by
  cases ts with
  | nil => rfl
  | cons l ts =>
    rw [startsWith_cons, beq_eq_false_iff_ne] at h
    rw [mark?, if_neg h]

lemma mark?_cons (c : Char) (line : Nat) (ts : List Lexeme) :
    mark? c (⟨.punct c, line⟩ :: ts) = some (.head () _ ts) := by
  rw [mark?, if_pos rfl]

lemma name_cons (n : String) (line : Nat) (ts : List Lexeme) :
    name final (⟨.name n, line⟩ :: ts) = .ok (.head n _ ts) := rfl

lemma reads_name {n : String} :
    Reads (name final ts) n rest ↔ ∃ line, ts = ⟨.name n, line⟩ :: rest := by
  constructor
  · rintro ⟨_, h⟩
    cases ts with
    | nil => cases h
    | cons l ts =>
      obtain ⟨token, line⟩ := l
      cases token with
      | name n' =>
        cases h
        exact ⟨line, rfl⟩
      | string s => cases h
      | int n => cases h
      | float x => cases h
      | punct c => cases h
  · rintro ⟨line, rfl⟩
    exact ⟨_, rfl⟩

lemma punct_cons (c : Char) (line : Nat) (ts : List Lexeme) :
    punct final c (⟨.punct c, line⟩ :: ts) = .ok (.head () _ ts) := by
  rw [punct, if_pos rfl]

lemma reads_punct {c : Char} :
    Reads (punct final c ts) () rest ↔ ∃ line, ts = ⟨.punct c, line⟩ :: rest := by
  constructor
  · rintro ⟨_, h⟩
    cases ts with
    | nil => cases h
    | cons l ts =>
      rw [punct] at h
      split at h
      · rename_i hl
        cases h
        exact ⟨l.line, by rw [← hl]⟩
      · cases h
  · rintro ⟨line, rfl⟩
    exact ⟨_, punct_cons c line rest⟩

/-! ## Loops -/

/-- A loop ends where its closing mark is next, and anywhere else it reads an item and goes on. -/
lemma reads_upTo {close : Char} {item : Step α} {as : List α} :
    Reads (upTo close item ts) as rest ↔
      (∃ line, ts = ⟨.punct close, line⟩ :: rest ∧ as = []) ∨
        startsWith close ts = false ∧ ∃ a mid as', as = a :: as' ∧ Reads (item ts) a mid ∧
          Reads (upTo close item mid) as' rest := by
  cases hclose : startsWith close ts with
  | true =>
    obtain ⟨line, ts, rfl⟩ := startsWith_eq_true_iff.mp hclose
    rw [upTo, mark?_cons]
    constructor
    · rintro ⟨_, h⟩
      cases h
      exact Or.inl ⟨line, rfl, rfl⟩
    · rintro (⟨_, hts, rfl⟩ | ⟨h, _⟩)
      · cases hts
        exact ⟨_, rfl⟩
      · cases h
  | false =>
    rw [upTo, mark?_eq_none hclose]
    constructor
    · rintro ⟨_, h⟩
      cases hitem : item ts with
      | error e =>
        simp only [hitem] at h
        cases h
      | ok a =>
        simp only [hitem] at h
        obtain ⟨as', has', hr⟩ := map_eq_ok h
        cases hr
        exact Or.inr ⟨rfl, _, _, _, rfl, .of_eq rfl, .of_eq has'⟩
    · rintro (⟨_, rfl, _⟩ | ⟨_, a, mid, as', rfl, ⟨hmid, hitem⟩, ⟨hrest, has'⟩⟩)
      · simp [startsWith_cons] at hclose
      · simp only [hitem, has']
        exact ⟨Nat.lt_trans hrest hmid, rfl⟩

/-- Arguments are a loop in which every entry needs a new name. -/
lemma reads_arguments {name : String} {acc args : Entries Literal} :
    Reads (arguments final name acc ts) args rest ↔
      (∃ line, ts = ⟨.punct ')', line⟩ :: rest ∧ args = acc) ∨
        startsWith ')' ts = false ∧ ∃ e mid,
          Reads (entry final (literal final Schema.maxNesting) ts) e mid ∧ e.1 ∉ acc.keys ∧
            Reads (arguments final name (acc ++ [e]) mid) args rest := by
  cases hclose : startsWith ')' ts with
  | true =>
    obtain ⟨line, ts, rfl⟩ := startsWith_eq_true_iff.mp hclose
    rw [arguments, mark?_cons]
    constructor
    · rintro ⟨_, h⟩
      cases h
      exact Or.inl ⟨line, rfl, rfl⟩
    · rintro (⟨_, hts, rfl⟩ | ⟨h, _⟩)
      · cases hts
        exact ⟨_, rfl⟩
      · cases h
  | false =>
    rw [arguments, mark?_eq_none hclose]
    constructor
    · rintro ⟨_, h⟩
      cases hentry : entry final (literal final Schema.maxNesting) ts with
      | error e =>
        simp only [hentry] at h
        cases h
      | ok r =>
        simp only [hentry] at h
        split at h
        · cases h
        · rename_i hnew
          obtain ⟨args, hargs, hr⟩ := map_eq_ok h
          cases hr
          exact Or.inr ⟨rfl, r.value, r.rest, .of_eq rfl,
            fun hmem => hnew (Entries.contains_iff.mpr hmem), .of_eq hargs⟩
    · rintro (⟨_, rfl, _⟩ | ⟨_, e, mid, ⟨hmid, hentry⟩, hnew, ⟨hrest, hargs⟩⟩)
      · simp [startsWith_cons] at hclose
      · have hcontains : acc.contains e.1 = false := by
          rw [Bool.eq_false_iff]
          exact fun hmem => hnew (Entries.contains_iff.mp hmem)
        simp only [hentry, hcontains, hargs]
        exact ⟨Nat.lt_trans hrest hmid, rfl⟩

/-! ## Directives -/

/-- A directive is its name, with arguments if a bracket is next. -/
lemma reads_directive {line : Nat} {d : Directive} :
    Reads (directive final line ts) d rest ↔
      (∃ n l, ts = ⟨.name n, l⟩ :: rest ∧ startsWith '(' rest = false ∧ d = ⟨n, [], line⟩) ∨
        ∃ n l opening mid args, ts = ⟨.name n, l⟩ :: ⟨.punct '(', opening⟩ :: mid ∧
          d = ⟨n, args, line⟩ ∧ Reads (arguments final n [] mid) args rest := by
  constructor
  · rintro ⟨_, h⟩
    obtain ⟨⟨n, mid, _⟩, hn, h⟩ := bind_eq_ok h
    obtain ⟨l, rfl⟩ := reads_name.mp ⟨_, hn⟩
    cases hparen : startsWith '(' mid with
    | false =>
      simp only [mark?_eq_none hparen] at h
      cases h
      exact Or.inl ⟨n, l, rfl, hparen, rfl⟩
    | true =>
      obtain ⟨opening, mid, rfl⟩ := startsWith_eq_true_iff.mp hparen
      simp only [mark?_cons] at h
      obtain ⟨⟨args, _, _⟩, hargs, h⟩ := bind_eq_ok h
      cases h
      exact Or.inr ⟨n, l, opening, mid, args, rfl, rfl, _, hargs⟩
  · rintro (⟨n, l, rfl, hparen, rfl⟩ | ⟨n, l, opening, mid, args, rfl, rfl, ⟨hrest, hargs⟩⟩)
    · refine ⟨Nat.lt_succ_self _, ?_⟩
      simp only [directive, name_cons, ok_bind, Reading.head, mark?_eq_none hparen]
      rfl
    · refine ⟨Nat.lt_succ_of_lt (Nat.lt_succ_of_lt hrest), ?_⟩
      simp only [directive, name_cons, ok_bind, Reading.head, mark?_cons, hargs]
      rfl

/-- There are directives as long as an `@` is next. -/
lemma leaves_directives {ds : List Directive} :
    Leaves (directives final ts) ds rest ↔
      (startsWith '@' ts = false ∧ ds = [] ∧ rest = ts) ∨
        ∃ line mid d mid' ds', ts = ⟨.punct '@', line⟩ :: mid ∧ ds = d :: ds' ∧
          Reads (directive final line mid) d mid' ∧ Leaves (directives final mid') ds' rest := by
  cases hat : startsWith '@' ts with
  | false =>
    rw [directives, mark?_eq_none hat]
    constructor
    · rintro ⟨_, h⟩
      cases h
      exact Or.inl ⟨rfl, rfl, rfl⟩
    · rintro (⟨_, rfl, rfl⟩ | ⟨_, _, _, _, _, rfl, _⟩)
      · exact ⟨_, rfl⟩
      · simp [startsWith_cons] at hat
  | true =>
    obtain ⟨line, mid, rfl⟩ := startsWith_eq_true_iff.mp hat
    rw [directives, mark?_cons]
    simp only [Reading.head, lineOf]
    constructor
    · rintro ⟨_, h⟩
      cases hd : directive final line mid with
      | error e =>
        simp only [hd] at h
        cases h
      | ok d =>
        simp only [hd] at h
        obtain ⟨ds, hds, hr⟩ := map_eq_ok h
        cases hr
        exact Or.inr ⟨line, mid, d.value, d.rest, ds.value, rfl, rfl, .of_eq hd,
          ds.bounded, hds⟩
    · rintro (⟨h, _⟩ | ⟨_, _, d, mid', ds', hts, rfl, ⟨hmid', hd⟩, ⟨hrest, hds⟩⟩)
      · cases h
      · cases hts
        simp only [hd, hds]
        exact ⟨_, rfl⟩

/-! ## Descriptions -/

/-- A description is taken off, or there is none. -/
lemma rest_description_cases (ts : List Lexeme) :
    (∃ s line, ts = ⟨.string s, line⟩ :: (description ts).rest) ∨ (description ts).rest = ts := by
  cases ts with
  | nil => exact Or.inr rfl
  | cons l ts =>
    obtain ⟨token, line⟩ := l
    cases token with
    | string s => exact Or.inl ⟨s, line, rfl⟩
    | name n => exact Or.inr rfl
    | int n => exact Or.inr rfl
    | float x => exact Or.inr rfl
    | punct c => exact Or.inr rfl

/-- A document ends where no token is left behind a description, and goes on with a definition
otherwise. -/
lemma definitions_eq_ok_iff {ds : List Definition} :
    definitions final ts = .ok ds ↔ (description ts).rest = [] ∧ ds = [] ∨
      (description ts).rest ≠ [] ∧ ∃ d mid ds', ds = d :: ds' ∧
        Reads (definition final (description ts).rest) d mid ∧ definitions final mid = .ok ds' := by
  rw [definitions]
  constructor
  · intro h
    split at h
    · rename_i hend
      exact Or.inl ⟨List.isEmpty_iff.mp hend, (Except.ok.inj h).symm⟩
    · rename_i hmore
      cases hd : definition final (description ts).rest with
      | error e =>
        rw [hd] at h
        cases h
      | ok d =>
        rw [hd] at h
        obtain ⟨ds', hds', rfl⟩ := map_eq_ok h
        exact Or.inr ⟨fun hnil => hmore (List.isEmpty_iff.mpr hnil), d.value, d.rest, ds', rfl,
          .of_eq rfl, hds'⟩
  · rintro (⟨hend, rfl⟩ | ⟨hmore, d, mid, ds', rfl, ⟨_, hd⟩, hds'⟩)
    · rw [if_pos (List.isEmpty_iff.mpr hend)]
    · rw [if_neg fun hend => hmore (List.isEmpty_iff.mp hend), hd]
      simp only [hds']
      rfl

end SchemaStack.Parser
