import SchemaStack.Proofs.Schema.Documents
/-!
# Values as they are written

The grammar gives values as the parser reads them. Here is what is written: a value whose objects
have all their entries, with keys that may be repeated. What is read comes of it by merging entries
of one key, so it is the same just if no object has a key twice, at any depth. From the tokens in
front one written value at most can be meant, and one directive.
-/

namespace SchemaStack

/-! ## Merging repeated keys -/

namespace Literal

mutual

/-- The value with one entry for each key of an object, at any depth: a key keeps its first
position and has its last value. -/
def condensed : Literal → Literal
  | .string s => .string s
  | .int n => .int n
  | .float x => .float x
  | .bool b => .bool b
  | .enum n => .enum n
  | .null => .null
  | .list items => .list (condensedItems items)
  | .object fields => .object (Entries.ofList (condensedFields fields))

def condensedItems : List Literal → List Literal
  | [] => []
  | v :: vs => v.condensed :: condensedItems vs

/-- The entries as they stand, each with its value condensed. -/
def condensedFields : List (String × Literal) → List (String × Literal)
  | [] => []
  | (k, v) :: es => (k, v.condensed) :: condensedFields es

end

/-- No key of an object is repeated, at any depth. -/
inductive Distinct : Literal → Prop
  | scalar {v : Literal} (list : v.list? = none) (object : v.object? = none) : Distinct v
  | list {items : List Literal} (h : ∀ v ∈ items, Distinct v) : Distinct (.list items)
  | object {fields : Entries Literal} (keys : (Entries.keys fields).Nodup)
      (h : ∀ e ∈ fields, Distinct e.2) : Distinct (.object fields)

lemma condensedItems_eq_map (items : List Literal) : condensedItems items = items.map condensed := by
  induction items with
  | nil => rfl
  | cons v vs ih => rw [condensedItems, ih, List.map_cons]

lemma condensedFields_eq_map (fields : Entries Literal) :
    condensedFields fields = fields.map fun e => (e.1, e.2.condensed) := by
  induction fields with
  | nil => rfl
  | cons e es ih => rw [condensedFields, ih, List.map_cons]

lemma keys_condensedFields (fields : Entries Literal) :
    Entries.keys (condensedFields fields) = Entries.keys fields := by
  rw [condensedFields_eq_map, Entries.keys, List.map_map]
  rfl

mutual

/-- Condensing changes a value just if somewhere in it a key is repeated. -/
theorem condensed_eq_self_iff : (v : Literal) → (v.condensed = v ↔ v.Distinct)
  | .string s => iff_of_true rfl (.scalar rfl rfl)
  | .int n => iff_of_true rfl (.scalar rfl rfl)
  | .float x => iff_of_true rfl (.scalar rfl rfl)
  | .bool b => iff_of_true rfl (.scalar rfl rfl)
  | .enum n => iff_of_true rfl (.scalar rfl rfl)
  | .null => iff_of_true rfl (.scalar rfl rfl)
  | .list items => by
    rw [condensed, list.injEq, condensedItems_eq_self_iff items]
    constructor
    · exact .list
    · intro h
      cases h with
      | scalar list => cases list
      | list h => exact h
  | .object fields => by
    rw [condensed, object.injEq]
    constructor
    · intro h
      have distinct : (Entries.keys fields).Nodup := h ▸ Entries.nodup_keys_ofList _
      rw [Entries.ofList_of_nodup (keys_condensedFields fields ▸ distinct),
        condensedFields_eq_self_iff fields] at h
      exact .object distinct h
    · intro h
      cases h with
      | scalar _ object => cases object
      | object distinct h =>
        rw [Entries.ofList_of_nodup (keys_condensedFields fields ▸ distinct)]
        exact (condensedFields_eq_self_iff fields).mpr h

theorem condensedItems_eq_self_iff :
    (items : List Literal) → (condensedItems items = items ↔ ∀ v ∈ items, v.Distinct)
  | [] => iff_of_true rfl fun v hv => absurd hv List.not_mem_nil
  | v :: vs => by
    rw [condensedItems, List.cons.injEq, List.forall_mem_cons, condensed_eq_self_iff v,
      condensedItems_eq_self_iff vs]

theorem condensedFields_eq_self_iff :
    (fields : List (String × Literal)) →
      (condensedFields fields = fields ↔ ∀ e ∈ fields, e.2.Distinct)
  | [] => iff_of_true rfl fun e he => absurd he List.not_mem_nil
  | (k, v) :: es => by
    rw [condensedFields, List.cons.injEq, List.forall_mem_cons, Prod.mk.injEq,
      condensed_eq_self_iff v, condensedFields_eq_self_iff es]
    exact ⟨fun h => ⟨h.1.2, h.2⟩, fun h => ⟨⟨rfl, h.1⟩, h.2⟩⟩

end

end Literal

namespace Directive

/-- The directive with one entry for each key of the objects in its arguments. -/
def condensed (d : Directive) : Directive :=
  { d with arguments := Literal.condensedFields d.arguments }

/-- No key of an object in the arguments is repeated. -/
def Distinct (d : Directive) : Prop := ∀ e ∈ d.arguments, e.2.Distinct

lemma condensed_eq_self_iff (d : Directive) : d.condensed = d ↔ d.Distinct := by
  rw [Distinct, ← Literal.condensedFields_eq_self_iff]
  obtain ⟨name, arguments, line⟩ := d
  simp [condensed]

end Directive

/-! ## Values as they are written -/

namespace Grammar

open SchemaStack.Parser (startsWith startsWith_cons)

/-- Values whose parts are `part`, an object with all its entries. -/
inductive WrittenOf (part : Phrase Literal) : Phrase Literal
  | other {ts rest : List Lexeme} {v : Literal} (h : ValueOf part ts v rest)
      (object : v.object? = none) : WrittenOf part ts v rest
  | object {ts rest : List Lexeme} {es : Entries Literal} (line close : Nat)
      (entries : Many (Entry part) ts es (⟨.punct '}', close⟩ :: rest)) :
      WrittenOf part (⟨.punct '{', line⟩ :: ts) (.object es) rest

/-- Written values with at most so many levels, of which a scalar has one. -/
def Written : Nat → Phrase Literal
  | 0 => fun _ _ _ => False
  | levels + 1 => WrittenOf (Written levels)

/-- A directive with all its arguments. Without any there is no parenthesis behind its name. -/
inductive WrittenDirective : Phrase Directive
  | bare (n : String) (line l : Nat) {ts : List Lexeme} (clear : startsWith '(' ts = false) :
      WrittenDirective (⟨.punct '@', line⟩ :: ⟨.name n, l⟩ :: ts) ⟨n, [], line⟩ ts
  | arguments {ts rest : List Lexeme} {args : Entries Literal} (n : String)
      (line l opening close : Nat)
      (entries : Many (Entry (Written Schema.maxNesting)) ts args (⟨.punct ')', close⟩ :: rest)) :
      WrittenDirective (⟨.punct '@', line⟩ :: ⟨.name n, l⟩ :: ⟨.punct '(', opening⟩ :: ts)
        ⟨n, args, line⟩ rest

variable {α β : Type} {ts rest rest' : List Lexeme}

/-- Wherever `p` reads something, `q` reads what it comes from. -/
def Lifts (p : Phrase α) (q : Phrase β) (f : β → α) : Prop :=
  ∀ ⦃ts a rest⦄, p ts a rest → ∃ b, q ts b rest ∧ f b = a

lemma lifts_many {p : Phrase α} {q : Phrase β} {f : β → α} (h : Lifts p q f) :
    Lifts (Many p) (Many q) (List.map f) := by
  intro ts as rest hmany
  induction hmany with
  | nil ts => exact ⟨[], .nil ts, rfl⟩
  | cons head tail ih =>
    obtain ⟨b, hb, rfl⟩ := h head
    obtain ⟨bs, hbs, rfl⟩ := ih
    exact ⟨b :: bs, .cons hb hbs, rfl⟩

lemma lifts_entry {p : Phrase α} {q : Phrase β} {f : β → α} (h : Lifts p q f) :
    Lifts (Entry p) (Entry q) fun e => (e.1, f e.2) := by
  intro ts e rest hentry
  cases hentry with
  | mk k line colon hvalue =>
    obtain ⟨b, hb, rfl⟩ := h hvalue
    exact ⟨(k, b), .mk k line colon hb, rfl⟩

/-- Each value of the grammar is the condensed form of one that is written. By induction on the
levels. -/
lemma lifts_value (levels : Nat) : Lifts (Value levels) (Written levels) Literal.condensed := by
  induction levels with
  | zero => exact fun _ _ _ h => h.elim
  | succ levels ih =>
    intro ts v rest h
    cases h with
    | string s line => exact ⟨.string s, .other (.string s line rest) rfl, rfl⟩
    | int n line => exact ⟨.int n, .other (.int n line rest) rfl, rfl⟩
    | float x line => exact ⟨.float x, .other (.float x line rest) rfl, rfl⟩
    | yes line => exact ⟨.bool true, .other (.yes line rest) rfl, rfl⟩
    | no line => exact ⟨.bool false, .other (.no line rest) rfl, rfl⟩
    | null line => exact ⟨.null, .other (.null line rest) rfl, rfl⟩
    | enum n line _ bare => exact ⟨.enum n, .other (.enum n line rest bare) rfl, rfl⟩
    | list line close items =>
      obtain ⟨ws, hws, rfl⟩ := lifts_many ih items
      refine ⟨.list ws, .other (.list line close hws) rfl, ?_⟩
      rw [Literal.condensed, Literal.condensedItems_eq_map]
    | object line close entries condenses =>
      obtain ⟨ws, hws, rfl⟩ := lifts_many (lifts_entry ih) entries
      refine ⟨.object ws, .object line close hws, ?_⟩
      rw [Literal.condensed, Literal.condensedFields_eq_map,
        Parser.eq_ofList_of_condenses condenses]

/-! ## One reading -/

/-- What is read from the tokens in front and which are left over is determined. -/
def Determined (p : Phrase α) : Prop :=
  ∀ ⦃ts a rest a' rest'⦄, p ts a rest → p ts a' rest' → a = a' ∧ rest = rest'

lemma determined_entry {p : Phrase α} (h : Determined p) : Determined (Entry p) := by
  intro ts e rest e' rest' hentry hentry'
  cases hentry with
  | mk k line colon hvalue =>
    cases hentry' with
    | mk _ _ _ hvalue' =>
      obtain ⟨rfl, rfl⟩ := h hvalue hvalue'
      exact ⟨rfl, rfl⟩

/-- Items up to a mark with which no item starts. -/
lemma determined_upTo {p : Phrase α} (h : Determined p) {close : Char}
    (apart : ∀ ⦃ts a rest⦄, p ts a rest → startsWith close ts = false) {as as' : List α}
    {line line' : Nat} (hmany : Many p ts as (⟨.punct close, line⟩ :: rest))
    (hmany' : Many p ts as' (⟨.punct close, line'⟩ :: rest')) : as = as' ∧ rest = rest' := by
  have closes (line : Nat) (rest : List Lexeme) :
      startsWith close (⟨.punct close, line⟩ :: rest) = true := by
    rw [startsWith_cons, beq_self_eq_true]
  generalize hend : (⟨.punct close, line⟩ :: rest : List Lexeme) = after at hmany
  induction hmany generalizing as' with
  | nil =>
    subst hend
    cases hmany' with
    | nil => exact ⟨rfl, rfl⟩
    | cons head => exact absurd (closes line rest) (by simp [apart head])
  | cons head _ ih =>
    cases hmany' with
    | nil => exact absurd (closes line' rest') (by simp [apart head])
    | cons head' tail' =>
      obtain ⟨rfl, rfl⟩ := h head head'
      obtain ⟨rfl, rfl⟩ := ih tail' hend
      exact ⟨rfl, rfl⟩

lemma startsWith_entry {p : Phrase α} {e : String × α} (h : Entry p ts e rest) (c : Char) :
    startsWith c ts = false := by
  cases h with
  | mk => rfl

lemma startsWith_written {levels : Nat} {v : Literal} (h : Written levels ts v rest) :
    startsWith ']' ts = false := by
  cases levels with
  | zero => exact h.elim
  | succ levels =>
    cases h with
    | object => rfl
    | other h => cases h <;> rfl

/-- A name is one of the words with a meaning of their own or else an enum value. -/
lemma value_of_name {part : Phrase Literal} {n : String} {line : Nat} {v : Literal}
    (h : ValueOf part (⟨.name n, line⟩ :: ts) v rest) :
    v = Parser.literalOfName n ∧ rest = ts := by
  cases h with
  | yes => exact ⟨rfl, rfl⟩
  | no => exact ⟨rfl, rfl⟩
  | null => exact ⟨rfl, rfl⟩
  | enum n line ts bare =>
    simp only [List.mem_cons, List.not_mem_nil, or_false, not_or] at bare
    rw [Parser.literalOfName, if_neg bare.1, if_neg bare.2.1, if_neg bare.2.2]
    exact ⟨rfl, rfl⟩

lemma determined_valueOf {part : Phrase Literal} (h : Determined part)
    (apart : ∀ ⦃ts v rest⦄, part ts v rest → startsWith ']' ts = false) {v v' : Literal}
    (hv : ValueOf part ts v rest) (hv' : ValueOf part ts v' rest') (scalar : v.object? = none) :
    v = v' ∧ rest = rest' := by
  cases hv with
  | string =>
    cases hv'
    exact ⟨rfl, rfl⟩
  | int =>
    cases hv'
    exact ⟨rfl, rfl⟩
  | float =>
    cases hv'
    exact ⟨rfl, rfl⟩
  | yes =>
    obtain ⟨rfl, rfl⟩ := value_of_name hv'
    exact ⟨rfl, rfl⟩
  | no =>
    obtain ⟨rfl, rfl⟩ := value_of_name hv'
    exact ⟨rfl, rfl⟩
  | null =>
    obtain ⟨rfl, rfl⟩ := value_of_name hv'
    exact ⟨rfl, rfl⟩
  | enum n line ts bare =>
    obtain ⟨rfl, rfl⟩ := value_of_name hv'
    have named : ValueOf part (⟨.name n, line⟩ :: rest') (.enum n) rest' := .enum n line _ bare
    exact value_of_name named
  | list line close items =>
    cases hv' with
    | list _ _ items' =>
      obtain ⟨rfl, rfl⟩ := determined_upTo h apart items items'
      exact ⟨rfl, rfl⟩
  | object => cases scalar

lemma determined_written (levels : Nat) : Determined (Written levels) := by
  induction levels with
  | zero => exact fun _ _ _ _ _ h => h.elim
  | succ levels ih =>
    intro ts v rest v' rest' h h'
    cases h with
    | object line close entries =>
      cases h' with
      | object _ _ entries' =>
        obtain ⟨rfl, rfl⟩ := determined_upTo (determined_entry ih)
          (fun _ _ _ h => startsWith_entry h '}') entries entries'
        exact ⟨rfl, rfl⟩
      | other h' object' =>
        cases h' with
        | object => cases object'
    | other h object =>
      cases h' with
      | object =>
        cases h with
        | object => cases object
      | other h' => exact determined_valueOf ih (fun _ _ _ => startsWith_written) h h' object

/-- At a mark, one directive at most is written. -/
lemma determined_directive : Determined WrittenDirective := by
  intro ts d rest d' rest' h h'
  cases h with
  | bare n line l clear =>
    cases h' with
    | bare => exact ⟨rfl, rfl⟩
    | arguments => cases clear
  | arguments n line l opening close entries =>
    cases h' with
    | bare _ _ _ clear => cases clear
    | arguments _ _ _ _ _ entries' =>
      obtain ⟨rfl, rfl⟩ := determined_upTo (determined_entry (determined_written _))
        (fun _ _ _ h => startsWith_entry h ')') entries entries'
      exact ⟨rfl, rfl⟩

end Grammar

end SchemaStack
