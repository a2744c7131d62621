import SchemaStack.Filesystem.Basic
import SchemaStack.Override.Basic
import SchemaStack.Project.Meta
/-!
# Sources of tables

Where a session learns about tables: the metadata of the project, an inventory of the account, and
the setting up of new storage. Questions may look at files and may remember something; only
setting up a new resource may change files.
-/

namespace SchemaStack

inductive SourceError where
  | file (e : FileError)
  /-- A file that does not hold what it should. -/
  | invalid (path : Path)
  | failed (message : String)
deriving DecidableEq, Repr

def SourceError.message : SourceError → String
  | .file e => e.message
  | .invalid path => "invalid " ++ path.text
  | .failed message => message

/-- Files, and what the sources remember. -/
structure World (σ : Type) where
  files : Filesystem
  memory : σ

/-- A question, which leaves files alone. -/
abbrev Query (σ α : Type) := Filesystem → σ → Except SourceError α × σ

structure TableSources (σ : Type) where
  loadMeta : Query σ ProjectMeta
  regions : Query σ (List String)
  tables : String → Query σ (List DeployedTable)
  /-- Sets up a storage resource and gives its name. Missing where that cannot be done. -/
  provision : Option (String → StorageService → World σ → Except SourceError String × World σ)

namespace World

variable {σ : Type}

def ask {α : Type} (w : World σ) (q : Query σ α) : Except SourceError α × World σ :=
  let (answer, memory) := q w.files w.memory
  (answer, { w with memory })

theorem files_ask {α : Type} (w : World σ) (q : Query σ α) : (w.ask q).2.files = w.files := rfl

end World

end SchemaStack
