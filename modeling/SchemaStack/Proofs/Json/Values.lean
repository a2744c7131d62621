import SchemaStack.Proofs.Entries
import SchemaStack.Proofs.Json.Literals
/-!
# JSON values as texts and back

The indented text of a value is read as that value, provided that it can be stored: its numbers
are whole and in range, the keys of its objects are distinct, and it nests no deeper than the
reader allows. Everything that is read can be stored, fractions apart.
-/

namespace SchemaStack

namespace Json

/-- Every number is whole. -/
inductive Integral : Json → Prop where
  | null : Integral .null
  | bool (b : Bool) : Integral (.bool b)
  | number (n : Int) : Integral (.number (.whole n))
  | string (s : String) : Integral (.string s)
  | array {items : List Json} (parts : ∀ v ∈ items, Integral v) : Integral (.array items)
  | object {members : List (String × Json)} (parts : ∀ m ∈ members, Integral m.2) :
    Integral (.object members)

/-- Arrays and objects nest at most so deep, numbers are whole and in range, and the keys of an
object are distinct. -/
inductive Storable : Nat → Json → Prop where
  | null (depth : Nat) : Storable depth .null
  | bool (depth : Nat) (b : Bool) : Storable depth (.bool b)
  | number (depth : Nat) {n : Int} (exact : JsonNumeral.Exact n) :
    Storable depth (.number (.whole n))
  | string (depth : Nat) (s : String) : Storable depth (.string s)
  | array {depth : Nat} {items : List Json} (parts : ∀ v ∈ items, Storable depth v) :
    Storable (depth + 1) (.array items)
  | object {depth : Nat} {members : List (String × Json)}
    (distinct : (Entries.keys members).Nodup) (parts : ∀ m ∈ members, Storable depth m.2) :
    Storable (depth + 1) (.object members)

lemma Storable.integral {depth : Nat} {j : Json} (h : Storable depth j) : Integral j := by
  induction h with
  | null depth => exact .null
  | bool depth b => exact .bool b
  | number depth exact => exact .number _
  | string depth s => exact .string s
  | array storable parts => exact .array parts
  | object distinct storable parts => exact .object parts

end Json

namespace JsonText

open Json (Integral Storable prettyChars prettyItems prettyMembers newline quote)

variable {cs rest body : List Char} {c : Char}

/-! ## The rules of reading -/

/-- What starts like no array, object or string is a scalar. -/
lemma reads_value_scalar {t : JsonText} (first : Reads (next? cs) c rest)
    (plain : c ≠ '\x7b' ∧ c ≠ '[' ∧ c ≠ '"') {behind : List Char}
    (read : Reads (scalar cs) t behind) : Reads (value cs) t behind := by
  obtain ⟨_, hfirst⟩ := first
  rw [value, hfirst]
  simpa only [if_neg plain.1, if_neg plain.2.1, if_neg plain.2.2] using read

lemma reads_value_string {us : List JsonUnit} (first : Reads (next? cs) '"' body)
    (read : Reads (stringBody body) us rest) : Reads (value cs) (.string us) rest := by
  obtain ⟨_, hfirst⟩ := first
  obtain ⟨_, hread⟩ := read
  rw [value, hfirst]
  simp only [hread, Option.map_some, reduceIte, Char.reduceEq]
  exact .of_eq rfl

lemma reads_value_emptyArray (first : Reads (next? cs) '[' body)
    (second : Reads (next? body) ']' rest) : Reads (value cs) (.array []) rest := by
  obtain ⟨_, hfirst⟩ := first
  obtain ⟨_, hsecond⟩ := second
  rw [value, hfirst]
  simp only [hsecond, reduceIte, Char.reduceEq]
  exact .of_eq rfl

lemma reads_value_array {ts : List JsonText} (first : Reads (next? cs) '[' body)
    {behind : List Char} (second : Reads (next? body) c behind) (busy : c ≠ ']')
    (read : Reads (elements body) ts rest) : Reads (value cs) (.array ts) rest := by
  obtain ⟨_, hfirst⟩ := first
  obtain ⟨_, hsecond⟩ := second
  obtain ⟨_, hread⟩ := read
  rw [value, hfirst]
  simp only [hsecond, busy, hread, Option.map_some, reduceIte, Char.reduceEq]
  exact .of_eq rfl

lemma reads_value_emptyObject (first : Reads (next? cs) '\x7b' body)
    (second : Reads (next? body) '\x7d' rest) : Reads (value cs) (.object []) rest := by
  obtain ⟨_, hfirst⟩ := first
  obtain ⟨_, hsecond⟩ := second
  rw [value, hfirst]
  simp only [hsecond, reduceIte, Char.reduceEq]
  exact .of_eq rfl

lemma reads_value_object {ms : List (List JsonUnit × JsonText)}
    (first : Reads (next? cs) '\x7b' body) {inside : List Char}
    (second : Reads (next? body) '"' inside) (read : Reads (members inside) ms rest) :
    Reads (value cs) (.object ms) rest := by
  obtain ⟨_, hfirst⟩ := first
  obtain ⟨_, hsecond⟩ := second
  obtain ⟨_, hread⟩ := read
  rw [value, hfirst]
  simp only [hsecond, hread, Option.map_some, reduceIte, Char.reduceEq]
  exact .of_eq rfl

lemma reads_elements_last {t : JsonText} (item : Reads (value cs) t body)
    (close : Reads (next? body) ']' rest) : Reads (elements cs) [t] rest := by
  obtain ⟨_, hitem⟩ := item
  obtain ⟨_, hclose⟩ := close
  rw [elements, hitem]
  simp only [hclose, reduceIte, Char.reduceEq]
  exact .of_eq rfl

lemma reads_elements_cons {t : JsonText} {ts : List JsonText} (item : Reads (value cs) t body)
    {inside : List Char} (comma : Reads (next? body) ',' inside)
    (items : Reads (elements inside) ts rest) : Reads (elements cs) (t :: ts) rest := by
  obtain ⟨_, hitem⟩ := item
  obtain ⟨_, hcomma⟩ := comma
  obtain ⟨_, hitems⟩ := items
  rw [elements, hitem]
  simp only [hcomma, hitems, Option.map_some, reduceIte, Char.reduceEq]
  exact .of_eq rfl

lemma reads_members_last {us : List JsonUnit} {t : JsonText} {atColon atValue : List Char}
    (key : Reads (stringBody cs) us atColon) (colon : Reads (next? atColon) ':' atValue)
    (item : Reads (value atValue) t body) (close : Reads (next? body) '\x7d' rest) :
    Reads (members cs) [(us, t)] rest := by
  obtain ⟨_, hkey⟩ := key
  obtain ⟨_, hcolon⟩ := colon
  obtain ⟨_, hitem⟩ := item
  obtain ⟨_, hclose⟩ := close
  rw [members, hkey]
  simp only [hcolon, hitem, hclose, reduceIte, Char.reduceEq]
  exact .of_eq rfl

lemma reads_members_cons {us : List JsonUnit} {t : JsonText}
    {ms : List (List JsonUnit × JsonText)} {atColon atValue atKey inside : List Char}
    (key : Reads (stringBody cs) us atColon) (colon : Reads (next? atColon) ':' atValue)
    (item : Reads (value atValue) t body) (comma : Reads (next? body) ',' atKey)
    (quoted : Reads (next? atKey) '"' inside) (items : Reads (members inside) ms rest) :
    Reads (members cs) ((us, t) :: ms) rest := by
  obtain ⟨_, hkey⟩ := key
  obtain ⟨_, hcolon⟩ := colon
  obtain ⟨_, hitem⟩ := item
  obtain ⟨_, hcomma⟩ := comma
  obtain ⟨_, hquoted⟩ := quoted
  obtain ⟨_, hitems⟩ := items
  rw [members, hkey]
  simp only [hcolon, hitem, hcomma, hquoted, hitems, Option.map_some, reduceIte, Char.reduceEq]
  exact .of_eq rfl

/-! ## The indented text -/

lemma newline_spaces (level : Nat) : ∀ c ∈ newline level, isSpace c = true := by
  intro c hc
  rw [newline, List.mem_cons] at hc
  rcases hc with rfl | hc
  · rfl
  · rw [List.eq_of_mem_replicate hc]
    rfl

lemma single_space : ∀ c ∈ [' '], isSpace c = true := List.forall_mem_singleton.mpr rfl

lemma reads_head (busy : isSpace c = false) (rest : List Char) :
    Reads (next? (c :: rest)) c rest :=
  @reads_next [] nofun c busy rest

lemma reads_newline (level : Nat) (busy : isSpace c = false) (rest : List Char) :
    Reads (next? (newline level ++ c :: rest)) c rest :=
  reads_next (newline_spaces level) busy rest

lemma ends_newline (level : Nat) (cs : List Char) : Ends (newline level ++ cs) :=
  .cons (by decide) _

lemma reads_quote {blank : List Char} (spaces : ∀ c ∈ blank, isSpace c = true) (s : String)
    (rest : List Char) :
    Reads (next? (blank ++ (quote s ++ rest))) '"'
      (s.toList.flatMap Json.escapeChar ++ '"' :: rest) := by
  rw [quote, List.cons_append, List.append_assoc]
  exact reads_next spaces rfl _

/-- The text of an array is its items, each on a line of its own and one level in. -/
lemma prettyChars_array (level : Nat) (v : Json) (vs : List Json) (rest : List Char) :
    prettyChars level (.array (v :: vs)) ++ rest =
      '[' :: (newline (level + 1) ++ (prettyChars (level + 1) v ++
        (prettyItems (level + 1) vs ++ (newline level ++ ']' :: rest)))) := by
  simp [prettyChars]

lemma prettyItems_cons (level : Nat) (v : Json) (vs : List Json) (rest : List Char) :
    prettyItems level (v :: vs) ++ rest =
      ',' :: (newline level ++ (prettyChars level v ++ (prettyItems level vs ++ rest))) := by
  simp [prettyItems]

/-- The text of an object is its members, written in the same way. -/
lemma prettyChars_object (level : Nat) (k : String) (v : Json) (ms : List (String × Json))
    (rest : List Char) :
    prettyChars level (.object ((k, v) :: ms)) ++ rest =
      '\x7b' :: (newline (level + 1) ++ (quote k ++ ([':', ' '] ++ (prettyChars (level + 1) v ++
        (prettyMembers (level + 1) ms ++ (newline level ++ '\x7d' :: rest)))))) := by
  simp [prettyChars]

lemma prettyMembers_cons (level : Nat) (k : String) (v : Json) (ms : List (String × Json))
    (rest : List Char) :
    prettyMembers level ((k, v) :: ms) ++ rest =
      ',' :: (newline level ++ (quote k ++ ([':', ' '] ++ (prettyChars level v ++
        (prettyMembers level ms ++ rest))))) := by
  simp [prettyMembers]

/-- Wherever the indented text of the value stands, the value is read from it. -/
def Legible (depth : Nat) (j : Json) : Prop :=
  ∀ (level : Nat) (blank rest : List Char), (∀ c ∈ blank, isSpace c = true) → Ends rest →
    ∃ t, Reads (value (blank ++ (prettyChars level j ++ rest))) t rest ∧ json? depth t = some j

/-- The character that the text of a value begins with is neither blank nor a closing bracket. -/
lemma first_of_storable {depth : Nat} {j : Json} (h : Storable depth j) (level : Nat) :
    ∃ c cs, prettyChars level j = c :: cs ∧ isSpace c = false ∧ c ≠ ']' := by
  cases h with
  | null => exact ⟨_, _, rfl, rfl, by decide⟩
  | bool depth b => cases b <;> exact ⟨_, _, rfl, rfl, by decide⟩
  | number depth exact =>
    obtain ⟨c, cs, hcs, busy, plain⟩ := first_of_whole _
    exact ⟨c, cs, hcs, busy, by rintro rfl; exact plain (by decide)⟩
  | string => exact ⟨_, _, rfl, rfl, by decide⟩
  | @array depth items parts => cases items <;> exact ⟨_, _, rfl, rfl, by decide⟩
  | @object depth members distinct parts =>
    cases members <;> exact ⟨_, _, rfl, rfl, by decide⟩

/-- A value that is written without brackets, braces and quotes. -/
lemma legible_of_scalar {depth : Nat} {j : Json} {t : JsonText} {c : Char} {text : List Char}
    (written : ∀ level, prettyChars level j = c :: text) (busy : isSpace c = false)
    (plain : c ≠ '\x7b' ∧ c ≠ '[' ∧ c ≠ '"')
    (read : ∀ rest, Ends rest → Reads (scalar (c :: text ++ rest)) t rest)
    (meaning : json? depth t = some j) : Legible depth j := by
  intro level blank rest spaces ends
  rw [written level]
  exact ⟨t, reads_value_scalar (reads_next spaces busy _) plain
    (reads_scalar_blank spaces (read rest ends)), meaning⟩

lemma legible_string (depth : Nat) (s : String) : Legible depth (.string s) := by
  intro level blank rest spaces ends
  refine ⟨.string (s.toList.map unitOf), ?_, ?_⟩
  · exact reads_value_string (reads_quote spaces s rest) (reads_stringBody _ _)
  · rw [json?, string?_map_unitOf, Option.map_some]

/-- The items of an array that is not empty, from the first one to the closing bracket. -/
lemma reads_items {depth : Nat} {v : Json} {vs : List Json}
    (parts : ∀ w ∈ v :: vs, Legible depth w) (level outer : Nat) (rest : List Char) :
    ∃ ts, Reads (elements (newline level ++ (prettyChars level v ++ (prettyItems level vs ++
      (newline outer ++ ']' :: rest))))) ts rest ∧ jsonItems? depth ts = some (v :: vs) := by
  induction vs generalizing v with
  | nil =>
    obtain ⟨t, hread, hv⟩ := parts v List.mem_cons_self level _ (newline outer ++ ']' :: rest)
      (newline_spaces level) (ends_newline outer _)
    refine ⟨[t], reads_elements_last hread (reads_newline outer rfl rest), ?_⟩
    simp [jsonItems?, hv]
  | cons w vs ih =>
    obtain ⟨ts, hitems, hvs⟩ := ih fun u hu => parts u (List.mem_cons_of_mem v hu)
    rw [prettyItems_cons]
    obtain ⟨t, hread, hv⟩ := parts v List.mem_cons_self level _ (',' :: (newline level ++
      (prettyChars level w ++ (prettyItems level vs ++ (newline outer ++ ']' :: rest)))))
      (newline_spaces level) (.cons (by decide) _)
    refine ⟨t :: ts, reads_elements_cons hread (reads_head rfl _) hitems, ?_⟩
    simp [jsonItems?, hv, hvs]

/-- The members of an object that is not empty, from inside the first key to the closing
brace. -/
lemma reads_pairs {depth : Nat} {k : String} {v : Json} {ms : List (String × Json)}
    (parts : ∀ m ∈ (k, v) :: ms, Legible depth m.2) (level outer : Nat) (rest : List Char) :
    ∃ ts, Reads (members (k.toList.flatMap Json.escapeChar ++ '"' :: ([':', ' '] ++
      (prettyChars level v ++ (prettyMembers level ms ++ (newline outer ++ '\x7d' :: rest))))))
        ts rest ∧ jsonMembers? depth ts = some ((k, v) :: ms) := by
  induction ms generalizing k v with
  | nil =>
    obtain ⟨t, hread, hv⟩ := parts _ List.mem_cons_self level [' ']
      (newline outer ++ '\x7d' :: rest) single_space (ends_newline outer _)
    refine ⟨[(k.toList.map unitOf, t)], reads_members_last (reads_stringBody _ _)
      (reads_head rfl _) hread (reads_newline outer rfl rest), ?_⟩
    simp [jsonMembers?, string?_map_unitOf, hv]
  | cons m ms ih =>
    obtain ⟨l, w⟩ := m
    obtain ⟨ts, hitems, hms⟩ := ih fun u hu => parts u (List.mem_cons_of_mem _ hu)
    rw [prettyMembers_cons]
    obtain ⟨t, hread, hv⟩ := parts _ List.mem_cons_self level [' '] (',' :: (newline level ++
      (quote l ++ ([':', ' '] ++ (prettyChars level w ++ (prettyMembers level ms ++
        (newline outer ++ '\x7d' :: rest))))))) single_space (.cons (by decide) _)
    refine ⟨(k.toList.map unitOf, t) :: ts, reads_members_cons (reads_stringBody _ _)
      (reads_head rfl _) hread (reads_head rfl _) (reads_quote (newline_spaces level) l _)
      hitems, ?_⟩
    simp [jsonMembers?, string?_map_unitOf, hv, hms]

lemma legible_array {depth : Nat} {items : List Json} (storable : ∀ v ∈ items, Storable depth v)
    (parts : ∀ v ∈ items, Legible depth v) : Legible (depth + 1) (.array items) := by
  intro level blank rest spaces ends
  cases items with
  | nil =>
    refine ⟨.array [], ?_, rfl⟩
    exact reads_value_emptyArray (reads_next spaces rfl _) (reads_head rfl _)
  | cons v vs =>
    obtain ⟨c, cs, hfirst, busy, unclosed⟩ := first_of_storable (storable v List.mem_cons_self)
      (level + 1)
    obtain ⟨ts, hread, hitems⟩ := reads_items parts (level + 1) level rest
    refine ⟨.array ts, ?_, ?_⟩
    · rw [prettyChars_array]
      have second := reads_newline (level + 1) busy
        (cs ++ (prettyItems (level + 1) vs ++ (newline level ++ ']' :: rest)))
      rw [← List.cons_append, ← hfirst] at second
      exact reads_value_array (reads_next spaces rfl _) second unclosed hread
    · rw [json?, if_neg (Nat.succ_ne_zero depth), Nat.add_sub_cancel, hitems, Option.map_some]

/-- The text of an object is read as its members one by one. -/
lemma reads_object {depth : Nat} {ms : List (String × Json)}
    (parts : ∀ m ∈ ms, Legible depth m.2) (level : Nat) (blank rest : List Char)
    (spaces : ∀ c ∈ blank, isSpace c = true) :
    ∃ ts, Reads (value (blank ++ (prettyChars level (.object ms) ++ rest))) (.object ts) rest ∧
      jsonMembers? depth ts = some ms := by
  cases ms with
  | nil =>
    refine ⟨[], ?_, rfl⟩
    exact reads_value_emptyObject (reads_next spaces rfl _) (reads_head rfl _)
  | cons m ms =>
    obtain ⟨k, v⟩ := m
    obtain ⟨ts, hread, hitems⟩ := reads_pairs parts (level + 1) level rest
    refine ⟨ts, ?_, hitems⟩
    rw [prettyChars_object]
    exact reads_value_object (reads_next spaces rfl _)
      (reads_quote (newline_spaces (level + 1)) k _) hread

lemma legible_object {depth : Nat} {ms : List (String × Json)}
    (distinct : (Entries.keys ms).Nodup) (parts : ∀ m ∈ ms, Legible depth m.2) :
    Legible (depth + 1) (.object ms) := by
  intro level blank rest spaces ends
  obtain ⟨ts, hread, hitems⟩ := reads_object parts level blank rest spaces
  refine ⟨.object ts, hread, ?_⟩
  rw [json?, if_neg (Nat.succ_ne_zero depth), Nat.add_sub_cancel, hitems, Option.map_some,
    Entries.ofList_of_nodup distinct]

theorem legible_of_storable {depth : Nat} {j : Json} (h : Storable depth j) :
    Legible depth j := by
  induction h with
  | null depth => exact legible_of_scalar (fun _ => rfl) rfl (by decide) (fun _ _ => .of_eq rfl) rfl
  | bool depth b =>
    cases b with
    | false =>
      exact legible_of_scalar (fun _ => rfl) rfl (by decide) (fun _ _ => .of_eq rfl) rfl
    | true =>
      exact legible_of_scalar (fun _ => rfl) rfl (by decide) (fun _ _ => .of_eq rfl) rfl
  | @number depth n exact =>
    obtain ⟨c, cs, hcs, busy, plain⟩ := first_of_whole n
    simp only [List.mem_cons, List.not_mem_nil, or_false, not_or] at plain
    refine legible_of_scalar (t := .number (numeralOf n)) (fun _ => hcs) busy
      ⟨plain.1, plain.2.1, plain.2.2.2.1⟩ ?_ ?_
    · intro rest ends
      rw [← hcs]
      exact reads_scalar_whole _ ends
    · rw [json?, JsonNumeral.number?_numeralOf exact, Option.map_some]
  | string depth s => exact legible_string depth s
  | array storable parts => exact legible_array storable parts
  | object distinct storable parts => exact legible_object distinct parts

end JsonText

namespace Json

open JsonText (maxDepth json? jsonItems? jsonMembers?)

theorem parse?_pretty {j : Json} (h : Storable maxDepth j) : Json.parse? j.pretty = some j := by
  obtain ⟨t, hread, hmeaning⟩ := JsonText.legible_of_storable h 0 [] [] nofun nofun
  rw [List.nil_append, List.append_nil] at hread
  obtain ⟨_, hread⟩ := hread
  rw [Json.parse?, Json.pretty, String.toList_ofList, JsonText.parse?, hread]
  exact hmeaning

/-- The tree of the text of an object has the members of the object. -/
lemma exists_tree_pretty {depth : Nat} {ms : List (String × Json)}
    (parts : ∀ m ∈ ms, Storable depth m.2) :
    ∃ ts, JsonText.parse? (Json.object ms).pretty.toList = some (.object ts) ∧
      jsonMembers? depth ts = some ms := by
  obtain ⟨ts, hread, hitems⟩ := JsonText.reads_object
    (fun m hm => JsonText.legible_of_storable (parts m hm)) 0 [] [] nofun
  rw [List.nil_append, List.append_nil] at hread
  obtain ⟨_, hread⟩ := hread
  refine ⟨ts, ?_, hitems⟩
  rw [Json.pretty, String.toList_ofList, JsonText.parse?, hread]
  rfl

/-! ## What is read -/

lemma exists_of_mem_jsonItems? {depth : Nat} {ts : List JsonText} {vs : List Json}
    (h : jsonItems? depth ts = some vs) {v : Json} (hv : v ∈ vs) :
    ∃ t, json? depth t = some v := by
  induction ts generalizing vs with
  | nil =>
    rw [jsonItems?, Option.some.injEq] at h
    subst h
    cases hv
  | cons t ts ih =>
    rw [jsonItems?] at h
    obtain ⟨w, hw, h⟩ := Option.bind_eq_some_iff.1 h
    obtain ⟨ws, hws, h⟩ := Option.bind_eq_some_iff.1 h
    cases h
    rcases List.mem_cons.1 hv with rfl | hv
    · exact ⟨t, hw⟩
    · exact ih hws hv

lemma exists_of_mem_jsonMembers? {depth : Nat} {ts : List (List JsonUnit × JsonText)}
    {ms : List (String × Json)} (h : jsonMembers? depth ts = some ms) {m : String × Json}
    (hm : m ∈ ms) : ∃ t, json? depth t = some m.2 := by
  induction ts generalizing ms with
  | nil =>
    rw [jsonMembers?, Option.some.injEq] at h
    subst h
    cases hm
  | cons t ts ih =>
    obtain ⟨us, t⟩ := t
    rw [jsonMembers?] at h
    obtain ⟨k, hk, h⟩ := Option.bind_eq_some_iff.1 h
    obtain ⟨w, hw, h⟩ := Option.bind_eq_some_iff.1 h
    obtain ⟨ws, hws, h⟩ := Option.bind_eq_some_iff.1 h
    cases h
    rcases List.mem_cons.1 hm with rfl | hm
    · exact ⟨t, hw⟩
    · exact ih hws hm

/-- A value that has been read can be stored again, if it has no fractions. -/
theorem storable_of_json? {depth : Nat} {t : JsonText} {j : Json} (h : json? depth t = some j)
    (whole : Integral j) : Storable depth j := by
  induction whole generalizing depth t with
  | null => exact .null depth
  | bool b => exact .bool depth b
  | string s => exact .string depth s
  | number n =>
    cases t with
    | number numeral =>
      obtain ⟨m, hm, hn⟩ := Option.map_eq_some_iff.1 h
      cases hn
      exact .number depth (JsonNumeral.exact_of_number? hm)
    | _ => simp [json?] at h
  | array parts ih =>
    cases t with
    | array ts =>
      cases depth with
      | zero => cases h
      | succ depth =>
        rw [json?, if_neg (Nat.succ_ne_zero depth), Nat.add_sub_cancel] at h
        obtain ⟨vs, hvs, hitems⟩ := Option.map_eq_some_iff.1 h
        cases hitems
        refine .array fun v hv => ?_
        obtain ⟨t, ht⟩ := exists_of_mem_jsonItems? hvs hv
        exact ih v hv ht
    | _ => simp [json?] at h
  | object parts ih =>
    cases t with
    | object ts =>
      cases depth with
      | zero => cases h
      | succ depth =>
        rw [json?, if_neg (Nat.succ_ne_zero depth), Nat.add_sub_cancel] at h
        obtain ⟨ms, hms, hmembers⟩ := Option.map_eq_some_iff.1 h
        cases hmembers
        refine .object (Entries.nodup_keys_ofList ms) fun m hm => ?_
        obtain ⟨t, ht⟩ := exists_of_mem_jsonMembers? hms (Entries.mem_of_mem_ofList hm)
        exact ih m hm ht
    | _ => simp [json?] at h

end Json

end SchemaStack
