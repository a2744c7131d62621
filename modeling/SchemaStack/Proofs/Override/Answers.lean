import SchemaStack.Proofs.Override.Phases
import Mathlib.Data.List.Forall2
/-!
# Prompts and their answers

In every phase that is put together from prompts and calls, the prompts take the answers in order,
one each. A phase breaks off just where a prompt has no answer that fits it, and that prompt is
its last event.
-/

namespace SchemaStack.Session

variable {σ α β : Type}

def Event.prompt? : Event → Option Prompt
  | .asked p => some p
  | _ => none

/-- The prompts among the events. -/
def prompts (es : List Event) : List Prompt := es.filterMap Event.prompt?

lemma prompts_append (es es' : List Event) : prompts (es ++ es') = prompts es ++ prompts es' :=
  List.filterMap_append

inductive Fits : Prompt → Answer → Prop
  | confirm (text : String) (yes : Bool) : Fits (.confirm text) (.confirm yes)
  | select (text : String) (items : List String) (i : Nat) : Fits (.select text items) (.select i)

/-- Every prompt takes an answer that fits it. A session that breaks off does so at its last event,
the one prompt that has none. -/
def Accounts (as : List Answer) (es : List Event) : Ending σ α → Prop
  | .done _ _ rest => ∃ used, as = used ++ rest ∧ List.Forall₂ Fits (prompts es) used
  | .broken p _ rest => ∃ before used, es = before ++ [.asked p] ∧
      List.Forall₂ Fits (prompts before) used ∧
        (as = used ∧ rest = [] ∨ ∃ a, as = used ++ a :: rest ∧ ¬ Fits p a)

/-- What follows events that have taken their answers takes the answers that are left. -/
lemma accounts_append {as as' used : List Answer} {es es' : List Event} {ending : Ending σ α}
    (has : as = used ++ as') (fit : List.Forall₂ Fits (prompts es) used)
    (h : Accounts as' es' ending) : Accounts as (es ++ es') ending := by
  subst has
  cases ending with
  | done a world rest =>
    obtain ⟨used', rfl, fit'⟩ := h
    refine ⟨used ++ used', (List.append_assoc _ _ _).symm, ?_⟩
    rw [prompts_append]
    exact List.rel_append fit fit'
  | broken p world rest =>
    obtain ⟨before, used', rfl, fit', hrest⟩ := h
    refine ⟨es ++ before, used ++ used', (List.append_assoc _ _ _).symm, ?_, ?_⟩
    · rw [prompts_append]
      exact List.rel_append fit fit'
    · rcases hrest with ⟨rfl, hnil⟩ | ⟨a, rfl, unfit⟩
      · exact Or.inl ⟨rfl, hnil⟩
      · exact Or.inr ⟨a, (List.append_assoc _ _ _).symm, unfit⟩

/-- One of the prompts has no answer that fits it. -/
def Unanswered (as : List Answer) (es : List Event) (p : Prompt) : Prop :=
  ∃ i : Nat, (prompts es)[i]? = some p ∧ ∀ a, as[i]? = some a → ¬ Fits p a

lemma fits_getElem? {ps : List Prompt} {used : List Answer} (fit : List.Forall₂ Fits ps used)
    {i : Nat} {p : Prompt} (h : ps[i]? = some p) : ∃ a, used[i]? = some a ∧ Fits p a := by
  induction fit generalizing i with
  | nil => cases h
  | cons head _ ih =>
    cases i with
    | zero =>
      cases h
      exact ⟨_, rfl, head⟩
    | succ i => exact ih h

/-- A prompt that has taken an answer finds it at its own place among all answers. -/
lemma fits_append_getElem? {ps : List Prompt} {used rest : List Answer}
    (fit : List.Forall₂ Fits ps used) {i : Nat} {p : Prompt} (h : ps[i]? = some p) :
    ∃ a, (used ++ rest)[i]? = some a ∧ Fits p a := by
  obtain ⟨a, ha, hfits⟩ := fits_getElem? fit h
  have hi : i < used.length := (List.getElem?_eq_some_iff.mp ha).1
  exact ⟨a, (List.getElem?_append_left hi).trans ha, hfits⟩

/-- The prompt without an answer that fits it is the one that a session breaks off at, and there is
none in a session that is done. -/
lemma unanswered_iff {as : List Answer} {es : List Event} {ending : Ending σ α}
    (h : Accounts as es ending) {p : Prompt} :
    Unanswered as es p ↔ ∃ world rest, ending = .broken p world rest := by
  cases ending with
  | done a world rest =>
    obtain ⟨used, rfl, fit⟩ := h
    constructor
    · rintro ⟨i, hp, unfit⟩
      obtain ⟨a, ha, hfits⟩ := fits_append_getElem? fit hp
      exact absurd hfits (unfit a ha)
    · rintro ⟨_, _, heq⟩
      cases heq
  | broken p' world rest =>
    obtain ⟨before, used, rfl, fit, hrest⟩ := h
    have hlength := fit.length_eq
    have hprompts : prompts (before ++ [.asked p']) = prompts before ++ [p'] :=
      prompts_append before [.asked p']
    constructor
    · rintro ⟨i, hp, unfit⟩
      rw [hprompts] at hp
      by_cases hi : i < (prompts before).length
      · rw [List.getElem?_append_left hi] at hp
        have hanswer : ∃ a, as[i]? = some a ∧ Fits p a := by
          rcases hrest with ⟨rfl, _⟩ | ⟨a, rfl, _⟩
          · exact fits_getElem? fit hp
          · exact fits_append_getElem? fit hp
        obtain ⟨a, ha, hfits⟩ := hanswer
        exact absurd hfits (unfit a ha)
      · rw [List.getElem?_append_right (Nat.le_of_not_lt hi), List.getElem?_singleton] at hp
        split at hp
        · cases hp
          exact ⟨world, rest, rfl⟩
        · cases hp
    · rintro ⟨_, _, heq⟩
      cases heq
      refine ⟨used.length, ?_, fun a ha => ?_⟩
      · rw [hprompts, ← hlength, List.getElem?_concat_length]
      · rcases hrest with ⟨rfl, _⟩ | ⟨a', rfl, unfit⟩
        · rw [List.getElem?_eq_none (Nat.le_refl _)] at ha
          cases ha
        · rw [List.getElem?_append_right (Nat.le_refl _), Nat.sub_self] at ha
          cases ha
          exact unfit

/-- There is at most one prompt more than there are answers. -/
lemma length_prompts_le {as : List Answer} {es : List Event} {ending : Ending σ α}
    (h : Accounts as es ending) : (prompts es).length ≤ as.length + 1 := by
  cases ending with
  | done a world rest =>
    obtain ⟨used, rfl, fit⟩ := h
    rw [fit.length_eq, List.length_append]
    omega
  | broken p world rest =>
    obtain ⟨before, used, rfl, fit, hrest⟩ := h
    rw [prompts_append, List.length_append, fit.length_eq]
    have hone : (prompts [.asked p]).length = 1 := rfl
    rcases hrest with ⟨rfl, _⟩ | ⟨a, rfl, _⟩
    · omega
    · rw [List.length_append]
      omega

namespace Phase

/-- Nothing is asked outside of prompts, and no answer is lost. -/
def Accounted (x : Phase σ α) : Prop :=
  ∀ ⦃world as es ending⦄, x world as es ending → Accounts as es ending

lemma accounted_yields (a : α) : Accounted (Yields a : Phase σ α) := by
  intro world as es ending h
  cases h
  exact ⟨[], rfl, .nil⟩

lemma accounted_notes {e : Event} (h : e.prompt? = none) : Accounted (Notes e : Phase σ Unit) := by
  intro world as es ending hnotes
  cases hnotes
  refine ⟨[], rfl, ?_⟩
  rw [prompts, List.filterMap_cons_none h]
  exact .nil

lemma accounted_calls (c : Call) (query : World σ → Except SourceError α × World σ) :
    Accounted (Calls c query) := by
  intro world as es ending h
  cases h
  exact ⟨[], rfl, .nil⟩

/-- A prompt takes the next answer if that can be read, which it can just if it fits. -/
lemma accounted_asks {p : Prompt} {read : Answer → Option α}
    (reads : ∀ a, read a = none ↔ ¬ Fits p a) : Accounted (Asks p read : Phase σ α) := by
  intro world as es ending h
  cases h with
  | @answered _ answer _ a fits =>
    have fit : Fits p answer := by
      by_contra unfit
      rw [(reads answer).mpr unfit] at fits
      cases fits
    exact ⟨[answer], rfl, .cons fit .nil⟩
  | @unfit _ answer _ unfit =>
    exact ⟨[], [], rfl, .nil, Or.inr ⟨answer, rfl, (reads answer).mp unfit⟩⟩
  | missing => exact ⟨[], [], rfl, .nil, Or.inl ⟨rfl, rfl⟩⟩

lemma accounted_then {x : Phase σ α} {f : α → Phase σ β} (first : Accounted x)
    (second : ∀ a, Accounted (f a)) : Accounted (Then x f) := by
  intro world as es ending h
  cases h with
  | done hx hf =>
    obtain ⟨used, has, fit⟩ := first hx
    exact accounts_append has fit (second _ hf)
  | broken hx => exact first hx

lemma accounted_provided {x : Phase σ (Except Setback α)}
    {f : α → Phase σ (Except Setback β)} (first : Accounted x) (second : ∀ a, Accounted (f a)) :
    Accounted (Provided x f) := by
  refine accounted_then first fun r => ?_
  cases r with
  | ok a => exact second a
  | error why => exact accounted_yields _

/-- By induction on the attempts. What is reported between two of them is not a prompt. -/
lemma accounted_until {attempt : Phase σ (Except Setback α)} (h : Accounted attempt) :
    Accounted (Until attempt) := by
  intro world as es ending huntil
  induction huntil with
  | found attempted => exact h attempted
  | @again _ _ _ _ _ _ why _ attempted _ ih =>
    obtain ⟨used, has, fit⟩ := h attempted
    have report : Accounts _ ([.reported why] ++ _) _ := accounts_append rfl .nil ih
    exact accounts_append has fit report
  | broken attempted => exact h attempted

/-- By induction on the rounds, each with its prompt for whether there are more. -/
lemma accounted_rounds {round : Phase σ α} {more : Phase σ Bool} (hround : Accounted round)
    (hmore : Accounted more) (found : List α) : Accounted (Rounds round more found) := by
  intro world as es ending hrounds
  induction hrounds with
  | last played no =>
    obtain ⟨used, has, fit⟩ := hround played
    exact accounts_append has fit (hmore no)
  | next played yes _ ih =>
    obtain ⟨used, has, fit⟩ := hround played
    obtain ⟨used', has', fit'⟩ := hmore yes
    exact accounts_append has fit (accounts_append has' fit' ih)
  | broken played => exact hround played
  | unasked played stuck =>
    obtain ⟨used, has, fit⟩ := hround played
    exact accounts_append has fit (hmore stuck)

end Phase

end SchemaStack.Session
