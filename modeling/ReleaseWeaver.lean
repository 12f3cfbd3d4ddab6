import ReleaseWeaver.Code.Body
import ReleaseWeaver.Code.Flow
import ReleaseWeaver.Code.Instr
import ReleaseWeaver.Code.Listing
import ReleaseWeaver.Code.StackCheck
import ReleaseWeaver.Config.Basic
import ReleaseWeaver.Config.Document
import ReleaseWeaver.Machine.Frame
import ReleaseWeaver.Machine.Heap
import ReleaseWeaver.Machine.Program
import ReleaseWeaver.Machine.Reactive
import ReleaseWeaver.Machine.State
import ReleaseWeaver.Metadata.Definition
import ReleaseWeaver.Metadata.Hierarchy
import ReleaseWeaver.Metadata.Module
import ReleaseWeaver.Proofs.Code.Depths
import ReleaseWeaver.Proofs.Code.Edits
import ReleaseWeaver.Proofs.Code.Lines
import ReleaseWeaver.Proofs.Code.Paths
import ReleaseWeaver.Proofs.Code.Redirection
import ReleaseWeaver.Proofs.Code.Splice
import ReleaseWeaver.Proofs.Code.SpliceBounds
import ReleaseWeaver.Proofs.Code.StackTyping
import ReleaseWeaver.Proofs.Code.Storage
import ReleaseWeaver.Proofs.Commands.Releases
import ReleaseWeaver.Proofs.Commands.Safety
import ReleaseWeaver.Proofs.Commands.Teardowns
import ReleaseWeaver.Proofs.Commands.Values
import ReleaseWeaver.Proofs.Config.RoundTrip
import ReleaseWeaver.Proofs.Machine.Activations
import ReleaseWeaver.Proofs.Machine.Budget
import ReleaseWeaver.Proofs.Machine.Dispatch
import ReleaseWeaver.Proofs.Machine.Exec
import ReleaseWeaver.Proofs.Machine.Prolonging
import ReleaseWeaver.Proofs.Machine.Returns
import ReleaseWeaver.Proofs.Machine.Runs
import ReleaseWeaver.Proofs.Machine.Search
import ReleaseWeaver.Proofs.Machine.Settling
import ReleaseWeaver.Proofs.Machine.StackSafety
import ReleaseWeaver.Proofs.Machine.Trails
import ReleaseWeaver.Proofs.Metadata.Ancestors
import ReleaseWeaver.Proofs.Metadata.Arenas
import ReleaseWeaver.Proofs.Metadata.Assignability
import ReleaseWeaver.Proofs.Metadata.Attributes
import ReleaseWeaver.Proofs.Metadata.Chains
import ReleaseWeaver.Proofs.Metadata.Changes
import ReleaseWeaver.Proofs.Metadata.Consistency
import ReleaseWeaver.Proofs.Metadata.Lookup
import ReleaseWeaver.Proofs.Metadata.Reordered
import ReleaseWeaver.Proofs.Metadata.Stores
import ReleaseWeaver.Proofs.Reference.FullNames
import ReleaseWeaver.Proofs.Reference.Versions
import ReleaseWeaver.Proofs.Toml.Documents
import ReleaseWeaver.Proofs.Toml.Spellings
import ReleaseWeaver.Proofs.Tracking.Alike
import ReleaseWeaver.Proofs.Tracking.Arranged
import ReleaseWeaver.Proofs.Tracking.Aside
import ReleaseWeaver.Proofs.Tracking.Balance
import ReleaseWeaver.Proofs.Tracking.Chaining
import ReleaseWeaver.Proofs.Tracking.Constructing
import ReleaseWeaver.Proofs.Tracking.Constructors
import ReleaseWeaver.Proofs.Tracking.Containers
import ReleaseWeaver.Proofs.Tracking.Events
import ReleaseWeaver.Proofs.Tracking.Exits
import ReleaseWeaver.Proofs.Tracking.Flow
import ReleaseWeaver.Proofs.Tracking.Handover
import ReleaseWeaver.Proofs.Tracking.Heap
import ReleaseWeaver.Proofs.Tracking.Histories
import ReleaseWeaver.Proofs.Tracking.InStep
import ReleaseWeaver.Proofs.Tracking.LeakFreedom
import ReleaseWeaver.Proofs.Tracking.Ledger
import ReleaseWeaver.Proofs.Tracking.Natives
import ReleaseWeaver.Proofs.Tracking.Nesting
import ReleaseWeaver.Proofs.Tracking.Relaying
import ReleaseWeaver.Proofs.Tracking.ReleaseOrder
import ReleaseWeaver.Proofs.Tracking.Releasing
import ReleaseWeaver.Proofs.Tracking.Requests
import ReleaseWeaver.Proofs.Tracking.Roles
import ReleaseWeaver.Proofs.Tracking.Sparing
import ReleaseWeaver.Proofs.Tracking.Staging
import ReleaseWeaver.Proofs.Tracking.Steps
import ReleaseWeaver.Proofs.Tracking.Storing
import ReleaseWeaver.Proofs.Tracking.Succession
import ReleaseWeaver.Proofs.Tracking.Transparent
import ReleaseWeaver.Proofs.Tracking.Woven
import ReleaseWeaver.Proofs.Weave.Accounts
import ReleaseWeaver.Proofs.Weave.Again
import ReleaseWeaver.Proofs.Weave.Bindings
import ReleaseWeaver.Proofs.Weave.Commands
import ReleaseWeaver.Proofs.Weave.Delegation
import ReleaseWeaver.Proofs.Weave.Exact
import ReleaseWeaver.Proofs.Weave.Failures
import ReleaseWeaver.Proofs.Weave.Families
import ReleaseWeaver.Proofs.Weave.Final
import ReleaseWeaver.Proofs.Weave.Fitting
import ReleaseWeaver.Proofs.Weave.Frame
import ReleaseWeaver.Proofs.Weave.Generics
import ReleaseWeaver.Proofs.Weave.Insertions
import ReleaseWeaver.Proofs.Weave.Order
import ReleaseWeaver.Proofs.Weave.Outcome
import ReleaseWeaver.Proofs.Weave.Overrides
import ReleaseWeaver.Proofs.Weave.Passes
import ReleaseWeaver.Proofs.Weave.Plans
import ReleaseWeaver.Proofs.Weave.Preparation
import ReleaseWeaver.Proofs.Weave.Prepared
import ReleaseWeaver.Proofs.Weave.ProloguePaths
import ReleaseWeaver.Proofs.Weave.ReleasePaths
import ReleaseWeaver.Proofs.Weave.Revisions
import ReleaseWeaver.Proofs.Weave.Rewriting
import ReleaseWeaver.Proofs.Weave.Rounds
import ReleaseWeaver.Proofs.Weave.Scope
import ReleaseWeaver.Proofs.Weave.Selection
import ReleaseWeaver.Proofs.Weave.Settled
import ReleaseWeaver.Proofs.Weave.Spread
import ReleaseWeaver.Proofs.Weave.Stubs
import ReleaseWeaver.Proofs.Weave.Teardowns
import ReleaseWeaver.Proofs.Weave.Turns
import ReleaseWeaver.Proofs.Weave.Verified
import ReleaseWeaver.Reference.Member
import ReleaseWeaver.Reference.Type
import ReleaseWeaver.Reference.Version
import ReleaseWeaver.Sample.Builder
import ReleaseWeaver.Sample.Metadata
import ReleaseWeaver.Sample.Reference
import ReleaseWeaver.Sample.Scenario
import ReleaseWeaver.Text.Fragment
import ReleaseWeaver.Text.Quoted
import ReleaseWeaver.Text.Unprintable
import ReleaseWeaver.Toml.Document
import ReleaseWeaver.Toml.Scalar
import ReleaseWeaver.Toml.Text
import ReleaseWeaver.Toml.Value
import ReleaseWeaver.Toml.Writer
import ReleaseWeaver.Weave.Collaborators
import ReleaseWeaver.Weave.Error
import ReleaseWeaver.Weave.HandleCall
import ReleaseWeaver.Weave.Log
import ReleaseWeaver.Weave.Marker
import ReleaseWeaver.Weave.Pass
import ReleaseWeaver.Weave.Report
import ReleaseWeaver.Weave.Run
import ReleaseWeaver.Weave.Session
import ReleaseWeaver.Weave.Target
import ReleaseWeaver.Weave.Teardown
import ReleaseWeaver.Weave.Tracking
