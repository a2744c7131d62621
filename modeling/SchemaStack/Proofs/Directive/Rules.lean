import SchemaStack.Directive.Auth
import SchemaStack.Proofs.Entries
import Mathlib.Data.List.Perm.Basic
/-!
# Rules

The rules of a type are read one after the other, each on top of what those before it came to. Of
all that is asked of them only one thing concerns more than a single rule: no two of them may be
owner rules. So it does not matter in which order they stand, but for the order of the groups.
-/

namespace SchemaStack

namespace Literal

/-- A string or a bare name. -/
def IsText (v : Literal) : Prop := ∃ s, v = .string s ∨ v = .enum s

/-- What an object has under a key. -/
def member? (v : Literal) (key : String) : Option Literal := v.object?.bind (Entries.get? · key)

lemma isSome_text?_iff {v : Literal} : v.text?.isSome = true ↔ v.IsText := by
  cases v <;> simp [text?, IsText]

end Literal

namespace AuthRules

/-- What a rule says under `allow`. -/
def strategy? (rule : Literal) : Option String := (rule.member? "allow").bind Literal.text?

def IsOwner (rule : Literal) : Prop := strategy? rule = some "owner"

def IsGroups (rule : Literal) : Prop := strategy? rule = some "groups"

instance (rule : Literal) : Decidable (IsOwner rule) := inferInstanceAs (Decidable (_ = _))

instance (rule : Literal) : Decidable (IsGroups rule) := inferInstanceAs (Decidable (_ = _))

/-- The field that an owner rule names. -/
def ownerField? (rule : Literal) : Option String :=
  match rule.member? "ownerField" with
  | none => some "owner"
  | some v => v.text?

/-- The names that a groups rule lists. -/
def groupNames (rule : Literal) : List String :=
  (((rule.member? "groups").bind Literal.list?).getD []).filterMap Literal.text?

/-- A rule that can be read, whatever the others are. -/
structure InOrder (rule : Literal) : Prop where
  object : ∃ fields : Entries Literal, rule = .object fields
  strategy : IsOwner rule ∨ IsGroups rule
  ownerField : IsOwner rule → ∀ v, rule.member? "ownerField" = some v → v.IsText
  groups : IsGroups rule → ∃ names, rule.member? "groups" = some (.list names) ∧ names ≠ [] ∧
    ∀ n ∈ names, n.IsText

structure Acceptable (rules : List Literal) : Prop where
  nonempty : rules ≠ []
  inOrder : ∀ rule ∈ rules, InOrder rule
  oneOwner : rules.countP (IsOwner ·) ≤ 1

/-- The names of all groups rules, as they are written. -/
def allGroupNames (rules : List Literal) : List String :=
  (rules.filter (IsGroups ·)).flatMap groupNames

/-- What acceptable rules come to. -/
def ofRules (rules : List Literal) : AuthRules where
  ownerField := (rules.find? (IsOwner ·)).bind ownerField?
  groups := (allGroupNames rules).eraseDups

/-! ## One rule -/

lemma not_isGroups_of_isOwner {rule : Literal} (h : IsOwner rule) : ¬ IsGroups rule := by
  intro h'
  exact absurd (Option.some.inj (h.symm.trans h')) (by decide)

/-- A rule with a strategy is an object. -/
lemma exists_fields {rule : Literal} {strategy : String} (h : strategy? rule = some strategy) :
    ∃ fields : Entries Literal, rule = .object fields := by
  cases rule with
  | object fields => exact ⟨fields, rfl⟩
  | _ => cases h

lemma inOrder_of_owner_iff {rule : Literal} (h : IsOwner rule) :
    InOrder rule ↔ (ownerField? rule).isSome = true := by
  have hfield : (ownerField? rule).isSome = true ↔
      ∀ v, rule.member? "ownerField" = some v → v.IsText := by
    rw [ownerField?]
    cases rule.member? "ownerField" with
    | none => simp
    | some v => simp [Literal.isSome_text?_iff]
  rw [hfield]
  refine ⟨fun inOrder => inOrder.ownerField h, fun text => ⟨exists_fields h, Or.inl h, ?_, ?_⟩⟩
  · exact fun _ => text
  · exact fun h' => absurd h' (not_isGroups_of_isOwner h)

lemma inOrder_of_groups_iff {rule : Literal} (h : IsGroups rule) :
    InOrder rule ↔ ∃ names, rule.member? "groups" = some (.list names) ∧ names ≠ [] ∧
      ∀ n ∈ names, n.IsText := by
  refine ⟨fun inOrder => inOrder.groups h, fun names => ⟨exists_fields h, Or.inr h, ?_, ?_⟩⟩
  · exact fun h' => absurd h (not_isGroups_of_isOwner h')
  · exact fun _ => names

/-- Names are added behind those that are there, each at its first place. -/
lemma addNames_eq_ok_iff {owner : Option String} {gs : List String} {names : List Literal}
    {r : AuthRules} :
    addNames ⟨owner, gs.eraseDups⟩ names = .ok r ↔
      (∀ n ∈ names, n.IsText) ∧ r = ⟨owner, (gs ++ names.filterMap Literal.text?).eraseDups⟩ := by
  induction names generalizing gs with
  | nil => simp [addNames, eq_comm]
  | cons n names ih =>
    rw [addNames, List.forall_mem_cons, ← Literal.isSome_text?_iff]
    cases hn : n.text? with
    | none => simp
    | some name =>
      have hstep : (if (gs.eraseDups).contains name then addNames ⟨owner, gs.eraseDups⟩ names
          else addNames ⟨owner, gs.eraseDups ++ [name]⟩ names) =
            addNames ⟨owner, (gs ++ [name]).eraseDups⟩ names := by
        rw [Entries.eraseDups_concat, List.contains_eq_mem]
        simp only [List.mem_eraseDups, decide_eq_true_eq]
        split <;> rfl
      simp only [hstep, ih, List.filterMap_cons_some hn, List.append_assoc, List.singleton_append,
        Option.isSome_some, true_and]

lemma addRule_of_owner_eq_ok_iff {owner : Option String} {gs : List String} {rule : Literal}
    (h : IsOwner rule) {r : AuthRules} :
    addRule ⟨owner, gs⟩ rule = .ok r ↔
      InOrder rule ∧ owner = none ∧ r = ⟨ownerField? rule, gs⟩ := by
  obtain ⟨fields, rfl⟩ := exists_fields h
  have hstrategy : (fields.get? "allow").bind Literal.text? = some "owner" := h
  have hmember : (Literal.object fields).member? "ownerField" = fields.get? "ownerField" := rfl
  rw [inOrder_of_owner_iff h, addRule, Literal.object?, ownerField?, hmember]
  simp only [hstrategy, if_true, addOwner]
  cases owner with
  | some field => simp
  | none =>
    cases fields.get? "ownerField" with
    | none => simp [defaultOwnerField, eq_comm]
    | some v =>
      dsimp only
      cases v.text? with
      | none => simp
      | some field =>
        simp only [Option.isSome_none, Bool.false_eq_true, if_false, Except.ok.injEq,
          Option.isSome_some, true_and]
        exact eq_comm

lemma addRule_of_groups_eq_ok_iff {owner : Option String} {gs : List String} {rule : Literal}
    (h : IsGroups rule) {r : AuthRules} :
    addRule ⟨owner, gs.eraseDups⟩ rule = .ok r ↔
      InOrder rule ∧ r = ⟨owner, (gs ++ groupNames rule).eraseDups⟩ := by
  obtain ⟨fields, rfl⟩ := exists_fields h
  have hstrategy : (fields.get? "allow").bind Literal.text? = some "groups" := h
  have hmember : (Literal.object fields).member? "groups" = fields.get? "groups" := rfl
  rw [inOrder_of_groups_iff h, addRule, Literal.object?, groupNames, hmember]
  simp only [hstrategy, String.reduceEq, if_false, if_true, addGroups]
  cases fields.get? "groups" with
  | none => simp
  | some v =>
    cases v with
    | list names =>
      cases names with
      | nil => simp [Literal.list?]
      | cons n names => simp [Literal.list?, addNames_eq_ok_iff]
    | _ => simp [Literal.list?]

lemma addRule_ne_ok {acc : AuthRules} {rule : Literal} (owner : ¬ IsOwner rule)
    (groups : ¬ IsGroups rule) {r : AuthRules} : addRule acc rule ≠ .ok r := by
  rw [addRule]
  cases hobject : rule.object? with
  | none => simp
  | some fields =>
    have hstrategy : strategy? rule = (fields.get? "allow").bind Literal.text? := by
      rw [strategy?, Literal.member?, hobject]
      rfl
    rw [IsOwner, hstrategy] at owner
    rw [IsGroups, hstrategy] at groups
    dsimp only
    cases h : (fields.get? "allow").bind Literal.text? with
    | none => simp
    | some strategy =>
      rw [h, Option.some.injEq] at owner groups
      simp [owner, groups]

/-! ## All rules -/

lemma addRules_cons_eq_ok_iff {acc : AuthRules} {rule : Literal} {rules : List Literal}
    {r : AuthRules} :
    addRules acc (rule :: rules) = .ok r ↔
      ∃ acc', addRule acc rule = .ok acc' ∧ addRules acc' rules = .ok r := by
  rw [addRules]
  cases addRule acc rule <;> simp

lemma countP_cons_of_owner {rule : Literal} (h : IsOwner rule) (rules : List Literal) :
    (rule :: rules).countP (IsOwner ·) = rules.countP (IsOwner ·) + 1 :=
  List.countP_cons_of_pos (by simpa using h)

lemma countP_cons_of_not_owner {rule : Literal} (h : ¬ IsOwner rule) (rules : List Literal) :
    (rule :: rules).countP (IsOwner ·) = rules.countP (IsOwner ·) :=
  List.countP_cons_of_neg (by simpa using h)

/-- What rules come to behind others that named an owner field or none, and these groups. -/
lemma addRules_eq_ok_iff {owner : Option String} {gs : List String} {rules : List Literal}
    {r : AuthRules} :
    addRules ⟨owner, gs.eraseDups⟩ rules = .ok r ↔
      (∀ rule ∈ rules, InOrder rule) ∧
        owner.toList.length + rules.countP (IsOwner ·) ≤ 1 ∧
        r = ⟨owner.or (ofRules rules).ownerField, (gs ++ allGroupNames rules).eraseDups⟩ := by
  induction rules generalizing owner gs with
  | nil => cases owner <;> simp [addRules, ofRules, allGroupNames, eq_comm]
  | cons rule rules ih =>
    rw [addRules_cons_eq_ok_iff, List.forall_mem_cons]
    by_cases howner : IsOwner rule
    · have hgroups : allGroupNames (rule :: rules) = allGroupNames rules := by
        simp [allGroupNames, not_isGroups_of_isOwner howner]
      have hfield : (ofRules (rule :: rules)).ownerField = ownerField? rule := by
        simp [ofRules, howner]
      simp only [addRule_of_owner_eq_ok_iff howner, inOrder_of_owner_iff howner,
        Option.isSome_iff_exists, countP_cons_of_owner howner, hgroups, hfield]
      constructor
      · rintro ⟨_, ⟨⟨field, hsome⟩, rfl, rfl⟩, hrest⟩
        rw [hsome] at hrest ⊢
        obtain ⟨hall, hcount, hr⟩ := ih.mp hrest
        exact ⟨⟨⟨field, rfl⟩, hall⟩, by simpa [Nat.add_comm] using hcount, hr⟩
      · rintro ⟨⟨⟨field, hsome⟩, hall⟩, hcount, hr⟩
        obtain rfl : owner = none := by
          cases owner with
          | none => rfl
          | some _ => simp [Nat.add_comm 1] at hcount
        refine ⟨_, ⟨⟨field, hsome⟩, rfl, rfl⟩, ?_⟩
        rw [hsome] at hr ⊢
        exact ih.mpr ⟨hall, by simpa [Nat.add_comm] using hcount, hr⟩
    · by_cases hgroups : IsGroups rule
      · have hnames : allGroupNames (rule :: rules) = groupNames rule ++ allGroupNames rules := by
          simp [allGroupNames, hgroups]
        have hfield : (ofRules (rule :: rules)).ownerField = (ofRules rules).ownerField := by
          simp [ofRules, howner]
        simp only [addRule_of_groups_eq_ok_iff hgroups, countP_cons_of_not_owner howner, hnames,
          hfield, ← List.append_assoc]
        constructor
        · rintro ⟨_, ⟨inOrder, rfl⟩, hrest⟩
          obtain ⟨hall, hrest⟩ := ih.mp hrest
          exact ⟨⟨inOrder, hall⟩, hrest⟩
        · rintro ⟨⟨inOrder, hall⟩, hrest⟩
          exact ⟨_, ⟨inOrder, rfl⟩, ih.mpr ⟨hall, hrest⟩⟩
      · refine iff_of_false ?_ fun h => ?_
        · rintro ⟨_, hrule, _⟩
          exact addRule_ne_ok howner hgroups hrule
        · exact h.1.1.strategy.elim howner hgroups

lemma addRules_empty_eq_ok_iff {rules : List Literal} (nonempty : rules ≠ []) {r : AuthRules} :
    addRules empty rules = .ok r ↔ Acceptable rules ∧ r = ofRules rules := by
  have hrules : addRules empty rules = .ok r ↔ _ := @addRules_eq_ok_iff none [] rules r
  rw [hrules, Option.toList_none, List.length_nil, Nat.zero_add, Option.none_or, List.nil_append]
  exact ⟨fun ⟨hall, hcount, hr⟩ => ⟨⟨nonempty, hall, hcount⟩, hr⟩,
    fun ⟨⟨_, hall, hcount⟩, hr⟩ => ⟨hall, hcount, hr⟩⟩

/-- Reading the arguments of a directive. -/
theorem ofArguments_eq_ok_iff {arguments : Entries Literal} {r : AuthRules} :
    ofArguments arguments = .ok r ↔
      (∀ k ∈ arguments.keys, k = "rules") ∧ ∃ rules,
        arguments.get? "rules" = some (.list rules) ∧ Acceptable rules ∧ r = ofRules rules := by
  rw [ofArguments]
  cases hextra : arguments.keys.find? (· ≠ "rules") with
  | some arg =>
    refine iff_of_false (by simp) fun h => ?_
    have hne := List.find?_some hextra
    exact absurd (h.1 arg (List.mem_of_find?_eq_some hextra)) (by simpa using hne)
  | none =>
    have hkeys : ∀ k ∈ arguments.keys, k = "rules" := by simpa using hextra
    rw [and_iff_right hkeys]
    cases arguments.get? "rules" with
    | none => simp
    | some v =>
      cases v with
      | list rules =>
        cases rules with
        | nil =>
          refine iff_of_false (by simp [Literal.list?]) ?_
          rintro ⟨_, hrules, acceptable, _⟩
          obtain rfl := Literal.list.inj (Option.some.inj hrules)
          exact acceptable.nonempty rfl
        | cons rule rules =>
          simp [Literal.list?, addRules_empty_eq_ok_iff (List.cons_ne_nil rule rules)]
      | _ => simp [Literal.list?]

section Types

variable {o : ObjectType} {d : Directive} (h : o.directive? "auth" = some d)
variable {v : Literal} (only : d.arguments = [("rules", v)])
include h only

lemma ofType?_eq_ok_iff {r : Option AuthRules} :
    ofType? o = .ok r ↔ ∃ rules, v = .list rules ∧ Acceptable rules ∧ r = some (ofRules rules) := by
  have hofType : ofType? o = .ok r ↔
      ∃ rules, ofArguments d.arguments = .ok rules ∧ r = some rules := by
    rw [ofType?, h]
    dsimp only
    cases ofArguments d.arguments <;> simp [eq_comm]
  have hkeys : ∀ k ∈ Entries.keys [("rules", v)], k = "rules" := by simp
  have hvalue : Entries.get? [("rules", v)] "rules" = some v := rfl
  simp only [hofType, only, ofArguments_eq_ok_iff, hvalue, Option.some.injEq]
  constructor
  · rintro ⟨_, ⟨_, rules, rfl, acceptable, rfl⟩, rfl⟩
    exact ⟨rules, rfl, acceptable, rfl⟩
  · rintro ⟨rules, rfl, acceptable, rfl⟩
    exact ⟨_, ⟨hkeys, rules, rfl, acceptable, rfl⟩, rfl⟩

lemma exists_ofType?_iff :
    (∃ r, ofType? o = .ok r) ↔ ∃ rules, v = .list rules ∧ Acceptable rules := by
  simp only [ofType?_eq_ok_iff h only]
  constructor
  · rintro ⟨_, rules, hv, acceptable, _⟩
    exact ⟨rules, hv, acceptable⟩
  · rintro ⟨rules, hv, acceptable⟩
    exact ⟨_, rules, hv, acceptable, rfl⟩

end Types

/-- The groups are listed once each. -/
lemma nodup_groups_ofRules (rules : List Literal) : (ofRules rules).groups.Nodup := by
  have hnodup := Entries.nodup_keys_ofList ((allGroupNames rules).map fun g => (g, ()))
  rwa [Entries.keys_ofList, Entries.keys, List.map_map, List.map_id''] at hnodup
  exact fun _ => rfl

/-! ## The order of the rules -/

section Permutations

variable {rules rules' : List Literal} (perm : rules.Perm rules')
include perm

lemma Acceptable.of_perm (acceptable : Acceptable rules) : Acceptable rules' := by
  obtain ⟨nonempty, inOrder, oneOwner⟩ := acceptable
  refine ⟨fun hnil => nonempty ?_, fun rule hrule => inOrder rule (perm.mem_iff.mpr hrule), ?_⟩
  · exact List.Perm.eq_nil (hnil ▸ perm)
  · rwa [← perm.countP_eq]

/-- There is at most one owner rule to be found. -/
lemma ownerField_of_perm (acceptable : Acceptable rules) :
    (ofRules rules').ownerField = (ofRules rules).ownerField := by
  have howners : rules'.filter (IsOwner ·) = rules.filter (IsOwner ·) := by
    have hperm := perm.filter (IsOwner ·)
    have hlength := acceptable.oneOwner
    rw [List.countP_eq_length_filter] at hlength
    generalize rules.filter (IsOwner ·) = owners at hperm hlength
    match owners with
    | [] => exact hperm.symm.eq_nil
    | [rule] => exact hperm.symm.eq_singleton
    | _ :: _ :: _ => simp at hlength
  rw [ofRules, ofRules, ← List.head?_filter, ← List.head?_filter, howners]

lemma mem_groups_of_perm {g : String} :
    g ∈ (ofRules rules').groups ↔ g ∈ (ofRules rules).groups := by
  rw [ofRules, ofRules, List.mem_eraseDups, List.mem_eraseDups]
  exact ((perm.filter _).flatMap_right groupNames).mem_iff.symm

end Permutations

/-- The rules of a type whose `@auth` has no other argument are read exactly where they are
acceptable. They then come to the field of the owner rule, if there is one, and to all groups in the
order in which they are first named. In another order the rules are read where they were and come
to the same field and groups. -/
theorem ofType?_reads_rules {o : ObjectType} {d : Directive} (h : o.directive? "auth" = some d)
    {v : Literal} (only : d.arguments = [("rules", v)]) :
    ((∃ r, ofType? o = .ok r) ↔ ∃ rules, v = .list rules ∧ Acceptable rules) ∧
      ∀ rules, v = .list rules →
        (Acceptable rules →
          ofType? o = .ok (some (ofRules rules)) ∧ (ofRules rules).groups.Nodup) ∧
        ∀ o' d' rules', o'.directive? "auth" = some d' →
          d'.arguments = [("rules", .list rules')] → rules.Perm rules' →
            ((∃ r', ofType? o' = .ok r') ↔ ∃ r, ofType? o = .ok r) ∧
            ∀ r r', ofType? o = .ok (some r) → ofType? o' = .ok (some r') →
              r'.ownerField = r.ownerField ∧ ∀ g, g ∈ r'.groups ↔ g ∈ r.groups := by
  have hread := fun r => ofType?_eq_ok_iff (r := r) h only
  have haccepted := exists_ofType?_iff h only
  refine ⟨haccepted, fun rules hv => ⟨fun acceptable => ⟨?_, nodup_groups_ofRules rules⟩, ?_⟩⟩
  · exact (hread _).mpr ⟨rules, hv, acceptable, rfl⟩
  · intro o' d' rules' h' only' perm
    subst hv
    refine ⟨?_, fun r r' hr hr' => ?_⟩
    · rw [haccepted, exists_ofType?_iff h' only']
      simp only [Literal.list.injEq, exists_eq_left']
      exact ⟨fun acceptable => acceptable.of_perm perm.symm,
        fun acceptable => acceptable.of_perm perm⟩
    · obtain ⟨_, hlist, acceptable, hsome⟩ := (hread _).mp hr
      obtain ⟨_, hlist', _, hsome'⟩ := (ofType?_eq_ok_iff h' only').mp hr'
      obtain rfl := Literal.list.inj hlist
      obtain rfl := Literal.list.inj hlist'
      rw [Option.some.inj hsome, Option.some.inj hsome']
      exact ⟨ownerField_of_perm perm acceptable, fun g => mem_groups_of_perm perm⟩

/-- What an author writes, and what the members of some groups may do. -/
def editorRules : List Literal :=
  [.object [("allow", .string "groups"),
     ("groups", .list [.string "Admin", .string "Admin", .enum "Ops"])],
   .object [("ownerField", .string "author"), ("allow", .enum "owner")],
   .object [("allow", .enum "groups"), ("groups", .list [.enum "Ops", .string "Legal"])]]

/-- A type with these rules. -/
def ruledBy (rules : List Literal) : ObjectType where
  name := "Note"
  directives := [⟨"model", [], 1⟩, ⟨"auth", [("rules", .list rules)], 1⟩]
  fields := [⟨"id", .nonNull (.named "ID"), [], 1⟩]
  line := 1

theorem ofType?_reads_rules_editor :
    ofType? (ruledBy editorRules) = .ok (some ⟨some "author", ["Admin", "Ops", "Legal"]⟩) ∧
      ∃ r, ofType? (ruledBy editorRules.reverse) = .ok (some r) ∧
        r.ownerField = some "author" ∧ ∀ g, g ∈ r.groups ↔ g ∈ ["Admin", "Ops", "Legal"] := by
  obtain ⟨haccepted, hrules⟩ := ofType?_reads_rules (o := ruledBy editorRules) rfl rfl
  obtain ⟨_, hlist, acceptable⟩ := haccepted.mp ⟨_, rfl⟩
  obtain rfl := Literal.list.inj hlist
  obtain ⟨hread, hperm⟩ := hrules editorRules rfl
  have hforward := (hread acceptable).1
  obtain ⟨_, hsame⟩ := hperm (ruledBy editorRules.reverse) _ editorRules.reverse rfl rfl
    (List.reverse_perm editorRules).symm
  have hbackward : ofType? (ruledBy editorRules.reverse) =
      .ok (some ⟨some "author", ["Ops", "Legal", "Admin"]⟩) := rfl
  exact ⟨hforward, _, hbackward, hsame _ _ hforward hbackward⟩

end AuthRules

end SchemaStack
