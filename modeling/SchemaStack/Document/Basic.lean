import SchemaStack.Resource
/-!
# Resource documents

Resources by logical ID. The order of the IDs is part of a document: it is the order in which the
resources were added.
-/

namespace SchemaStack

structure Document where
  formatVersion : String
  resources : Entries Resource
deriving Repr, Inhabited

namespace Document

def empty : Document := ⟨"2010-09-09", []⟩

def ids (d : Document) : List String := d.resources.keys

def get? (d : Document) (id : String) : Option Resource := d.resources.get? id

def contains (d : Document) (id : String) : Bool := d.resources.contains id

def size (d : Document) : Nat := d.resources.length

/-- A property of a resource. -/
def property? (d : Document) (id key : String) : Option Json :=
  (d.get? id).bind (·.property? key)

end Document

end SchemaStack
