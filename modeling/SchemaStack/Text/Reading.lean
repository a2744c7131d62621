/-!
# Readings

What reading the front of a list gives: a value and the part of the list that is left. The part
is shorter than the list, which is what makes a loop of readings end.
-/

namespace SchemaStack

universe u v w

structure Reading (α : Type u) {τ : Type v} (ts : List τ) where
  value : α
  rest : List τ
  shorter : rest.length < ts.length

namespace Reading

variable {α : Type u} {β : Type w} {τ : Type v} {ts : List τ}

def map (f : α → β) (r : Reading α ts) : Reading β ts := ⟨f r.value, r.rest, r.shorter⟩

/-- The second of two readings, one after the other, as a reading of the whole. -/
def after (r : Reading α ts) (s : Reading β r.rest) : Reading β ts :=
  ⟨s.value, s.rest, Nat.lt_trans s.shorter r.shorter⟩

/-- A reading of the tail of a list, as a reading of the list. -/
def cons {t : τ} (r : Reading α ts) : Reading α (t :: ts) :=
  ⟨r.value, r.rest, Nat.lt_succ_of_lt r.shorter⟩

/-- The reading that takes the head of a list. -/
def head (a : α) (t : τ) (ts : List τ) : Reading α (t :: ts) := ⟨a, ts, Nat.lt_succ_self _⟩

end Reading

/-- A reading that may take nothing. -/
structure Trailing (α : Type u) {τ : Type v} (ts : List τ) where
  value : α
  rest : List τ
  bounded : rest.length ≤ ts.length

namespace Trailing

variable {α : Type u} {β : Type w} {τ : Type v} {ts : List τ}

def none (a : α) (ts : List τ) : Trailing α ts := ⟨a, ts, Nat.le_refl _⟩

def map (f : α → β) (t : Trailing α ts) : Trailing β ts := ⟨f t.value, t.rest, t.bounded⟩

/-- A reading of the tail of a list takes something of the list. -/
def cons {t : τ} (r : Trailing α ts) : Reading α (t :: ts) :=
  ⟨r.value, r.rest, Nat.lt_succ_of_le r.bounded⟩

/-- The second of two readings, one after the other, as a reading of the whole. -/
def trans (t : Trailing α ts) (u : Trailing β t.rest) : Trailing β ts :=
  ⟨u.value, u.rest, Nat.le_trans u.bounded t.bounded⟩

/-- A reading after one that may take nothing, as a reading of the whole. -/
def after (t : Trailing α ts) (r : Reading β t.rest) : Reading β ts :=
  ⟨r.value, r.rest, Nat.lt_of_lt_of_le r.shorter t.bounded⟩

end Trailing

namespace Reading

variable {α : Type u} {β : Type w} {τ : Type v} {ts : List τ}

def trailing (r : Reading α ts) : Trailing α ts := ⟨r.value, r.rest, Nat.le_of_lt r.shorter⟩

/-- A reading and what may follow it, as a reading of the whole. -/
def followedBy (r : Reading α ts) (t : Trailing β r.rest) : Reading β ts :=
  ⟨t.value, t.rest, Nat.lt_of_le_of_lt t.bounded r.shorter⟩

end Reading

end SchemaStack
