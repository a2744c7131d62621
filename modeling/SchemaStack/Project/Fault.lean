import SchemaStack.Build.Contribution
import SchemaStack.Override.Session
/-!
# Faults of a project

Why a command on a project fails.
-/

namespace SchemaStack

inductive ProjectError where
  | build (e : BuildError)
  | file (e : FileError)
  /-- A text that is not JSON. -/
  | json
  | settings (path : Path)
  | prompt (e : Session.PromptError)
  | source (e : SourceError)
  /-- A settings file that is there already. -/
  | settingsExist (path : Path)
deriving DecidableEq, Repr

def ProjectError.message : ProjectError → String
  | .build e => e.message
  | .file e => e.message
  | .json => "JSON error"
  | .settings path => "invalid settings file " ++ path.text
  | .prompt e => e.message
  | .source e => e.message
  | .settingsExist path => path.text ++ " already exists"

end SchemaStack
