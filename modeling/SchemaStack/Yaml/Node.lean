import SchemaStack.Yaml.Token
/-!
# YAML trees

The tree of a document with its anchors and aliases, and what an alias stands for. Anchors are
numbered in the order of their names; when a name is used again, its new anchor takes the number
that the next new name would have, so that a later name may take over an alias. The last anchor
of a number is the one that counts.
-/

namespace SchemaStack.Yaml

/-- Anchors are named by `α`. -/
inductive Node (α : Type) where
  | scalar (anchor : Option α) (tag : Option Tag) (style : ScalarStyle) (text : String)
  | sequence (anchor : Option α) (items : List (Node α))
  | mapping (anchor : Option α) (members : List (Node α × Node α))
  | alias (anchor : α)
deriving Repr, Inhabited

namespace Node

/-- The scalar that stands for a node without content. -/
def empty {α : Type} : Node α := .scalar none none .plain ""

/-- The numbers of the anchors seen so far, latest first. -/
abbrev Numbering := List (String × Nat)

/-- How many names there are. -/
def nameCount (ns : Numbering) : Nat := (ns.map Prod.fst).eraseDups.length

/-- Gives an anchor its number. -/
def numberAnchor (ns : Numbering) : Option String → Option Nat × Numbering
  | none => (none, ns)
  | some a => (some (nameCount ns), (a, nameCount ns) :: ns)

mutual

/-- Replaces names by numbers. An alias has to follow an anchor of its name. -/
def number? (ns : Numbering) : Node String → Option (Node Nat × Numbering)
  | .scalar a t s x =>
    let (a, ns) := numberAnchor ns a
    some (.scalar a t s x, ns)
  | .sequence a items => do
    let (a, ns) := numberAnchor ns a
    let (items, ns) ← numberItems? ns items
    return (.sequence a items, ns)
  | .mapping a members => do
    let (a, ns) := numberAnchor ns a
    let (members, ns) ← numberMembers? ns members
    return (.mapping a members, ns)
  | .alias a => (ns.lookup a).map fun n => (.alias n, ns)

def numberItems? (ns : Numbering) : List (Node String) → Option (List (Node Nat) × Numbering)
  | [] => some ([], ns)
  | n :: rest => do
    let (n, ns) ← number? ns n
    let (rest, ns) ← numberItems? ns rest
    return (n :: rest, ns)

def numberMembers? (ns : Numbering) :
    List (Node String × Node String) → Option (List (Node Nat × Node Nat) × Numbering)
  | [] => some ([], ns)
  | (k, v) :: rest => do
    let (k, ns) ← number? ns k
    let (v, ns) ← number? ns v
    let (rest, ns) ← numberMembers? ns rest
    return ((k, v) :: rest, ns)

end

mutual

/-- The nodes with an anchor of the given number, in the order of the text. -/
def anchored (id : Nat) : Node Nat → List (Node Nat)
  | .scalar a t s x => if a = some id then [.scalar a t s x] else []
  | .sequence a items =>
    (if a = some id then [.sequence a items] else []) ++ anchoredItems id items
  | .mapping a members =>
    (if a = some id then [.mapping a members] else []) ++ anchoredMembers id members
  | .alias _ => []

def anchoredItems (id : Nat) : List (Node Nat) → List (Node Nat)
  | [] => []
  | n :: rest => anchored id n ++ anchoredItems id rest

def anchoredMembers (id : Nat) : List (Node Nat × Node Nat) → List (Node Nat)
  | [] => []
  | (k, v) :: rest => anchored id k ++ (anchored id v ++ anchoredMembers id rest)

end

/-- The node that `n`, which stands somewhere in `root`, stands for. -/
def target (n root : Node Nat) : Node Nat :=
  match n with
  | .alias id => ((anchored id root).getLast?).getD n
  | n => n

end Node

end SchemaStack.Yaml
