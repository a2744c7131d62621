import SchemaStack.Main
import SchemaStack.Proofs.Build.Contracts
import SchemaStack.Proofs.Directive.Coherence
import SchemaStack.Proofs.Build.MergeLaw
import SchemaStack.Proofs.Directive.ResourceList
import SchemaStack.Proofs.Directive.Coverage
import SchemaStack.Proofs.Directive.Overlay
import SchemaStack.Proofs.Directive.References
import SchemaStack.Proofs.Schema.RoundTrip
import SchemaStack.Proofs.Override.Rounds
import SchemaStack.Proofs.Sdl.Compiled
import SchemaStack.Proofs.Sdl.WellFormed
import SchemaStack.Proofs.Filesystem.Locations
import SchemaStack.Proofs.Sdl.Resolvers
import SchemaStack.Proofs.Filesystem.Changes
import SchemaStack.Proofs.Project.Confinement
import SchemaStack.Proofs.Filesystem.Directories
import SchemaStack.Proofs.Project.Failures
import SchemaStack.Proofs.Project.Sessions
import SchemaStack.Proofs.Project.Outputs
import SchemaStack.Proofs.Project.Persistence
import SchemaStack.Proofs.Project.Repetition
import SchemaStack.Proofs.Directive.Indexing
import SchemaStack.Proofs.Json.Values
import SchemaStack.Proofs.Directive.KeyAttributes
import SchemaStack.Proofs.Directive.Queries
import SchemaStack.Proofs.Directive.Growth
import SchemaStack.Proofs.Directive.Reordering
import SchemaStack.Proofs.Build.Atomicity
import SchemaStack.Proofs.Directive.Formatting
import SchemaStack.Proofs.CommandLine.Prediction
import SchemaStack.Proofs.Project.Classification
import SchemaStack.Proofs.Directive.Rules
import SchemaStack.Proofs.Directive.Pairing
import SchemaStack.Proofs.Directive.Acceptance
import SchemaStack.Proofs.Directive.Enforcement
import SchemaStack.Proofs.Schema.Blame
import SchemaStack.Proofs.Schema.Positions
import SchemaStack.Proofs.Directive.FaultLines
import SchemaStack.Proofs.Schema.Marks
import SchemaStack.Proofs.Directive.OwnerFields
import SchemaStack.Proofs.Filesystem.Atomicity
import SchemaStack.Proofs.Project.Provisioning
import SchemaStack.Proofs.Override.Provenance
import SchemaStack.Proofs.Directive.Noninterference
