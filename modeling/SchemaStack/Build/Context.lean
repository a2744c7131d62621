import SchemaStack.Build.Contribution
/-!
# Building a document

The state of a build, and how the contribution of a stage enters it. A contribution is checked as
a whole before any of it is applied, so a refused one leaves nothing behind: every ID must be new,
in the document and in the contribution, and every amendment must reach a resource of an earlier
stage.
-/

namespace SchemaStack

structure Context where
  schema : Schema
  document : Document
  /-- The stage that added each resource of the document. -/
  owners : Entries String
  artifacts : Artifacts
deriving Repr, Inhabited

namespace Context

def start (s : Schema) : Context := ⟨s, .empty, [], {}⟩

/-- Checks the IDs after those in `seen`, which the same contribution brings. -/
def checkEntries (owners : Entries String) (stage : String) (seen : List String) :
    List (String × Resource) → Except BuildError Unit
  | [] => .ok ()
  | (id, _) :: es =>
    match owners.get? id with
    | some first => .error (.collision id first stage)
    | none =>
      if seen.contains id then .error (.collision id stage stage)
      else checkEntries owners stage (id :: seen) es

def checkAmendments (document : Document) (stage : String) :
    List Amendment → Except BuildError Unit
  | [] => .ok ()
  | a :: as =>
    if document.contains a.target then checkAmendments document stage as
    else .error (.amendment stage a.target)

def amend (document : Document) (a : Amendment) : Document :=
  { document with
    resources := document.resources.modify (·.set a.property a.value) a.target }

/-- The document with entries appended and then amendments carried out, each in order. -/
def apply (document : Document) (k : Contribution) : Document :=
  k.amendments.foldl amend { document with resources := document.resources ++ k.entries }

def merge (c : Context) (stage : String) (k : Contribution) : Except BuildError Context := do
  checkEntries c.owners stage [] k.entries
  checkAmendments c.document stage k.amendments
  return { c with
    document := apply c.document k
    owners := c.owners ++ k.entries.map fun e => (e.1, stage) }

end Context

end SchemaStack
