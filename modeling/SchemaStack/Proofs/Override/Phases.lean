import SchemaStack.Override.Session
import Mathlib.Tactic.Common
/-!
# Phases of a session

A phase is a stretch of a session: it starts with a world and the answers that are left, emits
events, and ends with a value or at a prompt that has no answer that fits. Phases are put together
in sequence and in loops, and nothing else: how the events of a session go together can be read
off the phase that it is.
-/

namespace SchemaStack.Session

variable {σ α β γ : Type}

namespace Answer

def yes? : Answer → Option Bool
  | .confirm yes => some yes
  | _ => none

def index? : Answer → Option Nat
  | .select i => some i
  | _ => none

end Answer

inductive Ending (σ α : Type) where
  /-- With the answers that are still left. -/
  | done (a : α) (world : World σ) (rest : List Answer)
  /-- At a prompt, where a next answer is missing or does not fit. -/
  | broken (p : Prompt) (world : World σ) (rest : List Answer)

/-- From a world and the answers that are left, with these events, to such an ending. -/
abbrev Phase (σ α : Type) := World σ → List Answer → List Event → Ending σ α → Prop

namespace Phase

/-- Nothing happens. -/
inductive Yields (a : α) : Phase σ α
  | mk {world : World σ} {as : List Answer} : Yields a world as [] (.done a world as)

inductive Notes (e : Event) : Phase σ Unit
  | mk {world : World σ} {as : List Answer} : Notes e world as [e] (.done () world as)

/-- A prompt takes the next answer. -/
inductive Asks (p : Prompt) (read : Answer → Option α) : Phase σ α
  | answered {world : World σ} {answer : Answer} {as : List Answer} {a : α}
      (fits : read answer = some a) :
      Asks p read world (answer :: as) [.asked p] (.done a world as)
  | unfit {world : World σ} {answer : Answer} {as : List Answer} (unfit : read answer = none) :
      Asks p read world (answer :: as) [.asked p] (.broken p world as)
  | missing {world : World σ} : Asks p read world [] [.asked p] (.broken p world [])

/-- A call of the sources, whose failure is a setback. -/
inductive Calls (c : Call) (query : World σ → Except SourceError α × World σ) :
    Phase σ (Except Setback α)
  | mk {world : World σ} {as : List Answer} :
      Calls c query world as [.called c]
        (.done ((query world).1.mapError (.failed c)) (query world).2 as)

inductive Then (x : Phase σ α) (f : α → Phase σ β) : Phase σ β
  | done {world world' : World σ} {as as' : List Answer} {es es' : List Event} {a : α}
      {ending : Ending σ β} (first : x world as es (.done a world' as'))
      (second : f a world' as' es' ending) : Then x f world as (es ++ es') ending
  | broken {world world' : World σ} {as as' : List Answer} {es : List Event} {p : Prompt}
      (first : x world as es (.broken p world' as')) :
      Then x f world as es (.broken p world' as')

/-- The second phase takes place unless the first ends in a setback. -/
def Provided (x : Phase σ (Except Setback α)) (f : α → Phase σ (Except Setback β)) :
    Phase σ (Except Setback β) :=
  Then x fun
    | .ok a => f a
    | .error why => Yields (.error why)

/-- Attempts up to the first that does not end in a setback. Every setback is reported once. -/
inductive Until (attempt : Phase σ (Except Setback α)) : Phase σ α
  | found {world world' : World σ} {as as' : List Answer} {es : List Event} {a : α}
      (attempted : attempt world as es (.done (.ok a) world' as')) :
      Until attempt world as es (.done a world' as')
  | again {world world' : World σ} {as as' : List Answer} {es es' : List Event} {why : Setback}
      {ending : Ending σ α} (attempted : attempt world as es (.done (.error why) world' as'))
      (others : Until attempt world' as' es' ending) :
      Until attempt world as (es ++ .reported why :: es') ending
  | broken {world world' : World σ} {as as' : List Answer} {es : List Event} {p : Prompt}
      (attempted : attempt world as es (.broken p world' as')) :
      Until attempt world as es (.broken p world' as')

/-- Rounds, each with the question behind it whether there is another. What comes of them is added
to `found`. -/
inductive Rounds (round : Phase σ α) (more : Phase σ Bool) : List α → Phase σ (List α)
  | last {world world' world'' : World σ} {as as' as'' : List Answer} {es es' : List Event}
      {found : List α} {a : α} (played : round world as es (.done a world' as'))
      (no : more world' as' es' (.done false world'' as'')) :
      Rounds round more found world as (es ++ es') (.done (found ++ [a]) world'' as'')
  | next {world world' world'' : World σ} {as as' as'' : List Answer} {es es' es'' : List Event}
      {found : List α} {a : α} {ending : Ending σ (List α)}
      (played : round world as es (.done a world' as'))
      (yes : more world' as' es' (.done true world'' as''))
      (others : Rounds round more (found ++ [a]) world'' as'' es'' ending) :
      Rounds round more found world as (es ++ (es' ++ es'')) ending
  | broken {world world' : World σ} {as as' : List Answer} {es : List Event} {found : List α}
      {p : Prompt} (played : round world as es (.broken p world' as')) :
      Rounds round more found world as es (.broken p world' as')
  | unasked {world world' world'' : World σ} {as as' as'' : List Answer} {es es' : List Event}
      {found : List α} {a : α} {p : Prompt} (played : round world as es (.done a world' as'))
      (stuck : more world' as' es' (.broken p world'' as'')) :
      Rounds round more found world as (es ++ es') (.broken p world'' as'')

/-! ## Laws of sequences -/

lemma ext {x y : Phase σ α}
    (h : ∀ world as es ending, x world as es ending ↔ y world as es ending) : x = y := by
  funext world as es ending
  exact propext (h world as es ending)

lemma yields_then (a : α) (f : α → Phase σ β) : Then (Yields a) f = f a := by
  refine ext fun world as es ending => ⟨fun h => ?_, fun h => ?_⟩
  · cases h with
    | done head tail =>
      cases head
      exact tail
    | broken head => cases head
  · change Then (Yields a) f world as ([] ++ es) ending
    exact .done Yields.mk h

/-- It does not matter how phases in a row are put together. -/
lemma then_assoc (x : Phase σ α) (f : α → Phase σ β) (g : β → Phase σ γ) :
    Then (Then x f) g = Then x fun a => Then (f a) g := by
  refine ext fun world as es ending => ⟨fun h => ?_, fun h => ?_⟩
  · cases h with
    | done head tail =>
      cases head with
      | done first second =>
        rw [List.append_assoc]
        exact .done first (.done second tail)
    | broken head =>
      cases head with
      | done first second => exact .done first (.broken second)
      | broken first => exact .broken first
  · cases h with
    | done head tail =>
      cases tail with
      | done second third =>
        rw [← List.append_assoc]
        exact .done (.done head second) third
      | broken second => exact .broken (.done head second)
    | broken head => exact .broken (.broken head)

lemma provided_then (x : Phase σ (Except Setback α)) (f : α → Phase σ (Except Setback β))
    (g : Except Setback β → Phase σ γ) :
    Then (Provided x f) g = Then x fun
      | .ok a => Then (f a) g
      | .error why => g (.error why) := by
  rw [Provided, then_assoc]
  refine congrArg (Then x) (funext fun r => ?_)
  cases r with
  | ok a => rfl
  | error why => exact yields_then _ g

/-! ## Loops step by step -/

lemma until_eq (attempt : Phase σ (Except Setback α)) :
    Until attempt = Then attempt fun
      | .ok a => Yields a
      | .error why => Then (Notes (.reported why)) fun _ => Until attempt := by
  refine ext fun world as es ending => ⟨fun h => ?_, fun h => ?_⟩
  · cases h with
    | found attempted =>
      rw [← List.append_nil es]
      exact .done attempted Yields.mk
    | again attempted others => exact .done attempted (.done Notes.mk others)
    | broken attempted => exact .broken attempted
  · cases h with
    | @done _ _ _ _ _ _ r _ attempted rest =>
      cases r with
      | ok a =>
        cases rest
        rw [List.append_nil]
        exact .found attempted
      | error why =>
        cases rest with
        | done note others =>
          cases note
          exact .again attempted others
        | broken note => cases note
    | broken attempted => exact .broken attempted

/-- An attempt and what follows it, for a loop and what follows it. -/
lemma until_then (attempt : Phase σ (Except Setback α)) (f : α → Phase σ β) :
    Then (Until attempt) f = Then attempt fun
      | .ok a => f a
      | .error why => Then (Notes (.reported why)) fun _ => Then (Until attempt) f := by
  conv_lhs => rw [until_eq, then_assoc]
  refine congrArg (Then attempt) (funext fun r => ?_)
  cases r with
  | ok a => exact yields_then a f
  | error why => exact then_assoc _ _ f

/-- Rounds are one round, and others as long as the answer is yes. -/
lemma rounds_eq (round : Phase σ α) (more : Phase σ Bool) (found : List α) :
    Rounds round more found = Then round fun a => Then more fun
      | true => Rounds round more (found ++ [a])
      | false => Yields (found ++ [a]) := by
  refine ext fun world as es ending => ⟨fun h => ?_, fun h => ?_⟩
  · cases h with
    | last played no =>
      rw [← List.append_nil (_ ++ _), List.append_assoc]
      exact .done played (.done no Yields.mk)
    | next played yes others => exact .done played (.done yes others)
    | broken played => exact .broken played
    | unasked played stuck => exact .done played (.broken stuck)
  · cases h with
    | done played rest =>
      cases rest with
      | @done _ _ _ _ _ _ answer _ asked rest =>
        cases answer with
        | true => exact .next played asked rest
        | false =>
          cases rest
          rw [List.append_nil]
          exact .last played asked
      | broken stuck => exact .unasked played stuck
    | broken played => exact .broken played

lemma rounds_then (round : Phase σ α) (more : Phase σ Bool) (found : List α)
    (f : List α → Phase σ β) :
    Then (Rounds round more found) f = Then round fun a => Then more fun
      | true => Then (Rounds round more (found ++ [a])) f
      | false => f (found ++ [a]) := by
  rw [rounds_eq, then_assoc]
  refine congrArg (Then round) (funext fun a => ?_)
  rw [then_assoc]
  refine congrArg (Then more) (funext fun answer => ?_)
  cases answer with
  | true => rfl
  | false => exact yields_then _ f

end Phase

end SchemaStack.Session
