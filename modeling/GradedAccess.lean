import GradedAccess.Config
import GradedAccess.Database.Offline
import GradedAccess.Listener.Run
import GradedAccess.Proofs.Engine.Staleness
import GradedAccess.Proofs.Limits.Session
import GradedAccess.Proofs.Reload.Failure
import GradedAccess.Proofs.Resolution.Loaded
import GradedAccess.Proofs.Roles.Displacement
import GradedAccess.Proofs.Sync.Convergence
import GradedAccess.Registry.Declared
import GradedAccess.Store.Lists
import GradedAccess.Store.Memory
import GradedAccess.Store.Observed
import GradedAccess.Stream.Subscription
import GradedAccess.Proofs.Stream.Broker
import GradedAccess.Proofs.Stream.Sorting
import GradedAccess.Proofs.Stream.Consumer
import GradedAccess.Proofs.Stream.Calls
import GradedAccess.Proofs.Stream.Accounts
import GradedAccess.Proofs.Stream.Delivery
import GradedAccess.Proofs.Listener.Steps
import GradedAccess.Proofs.Listener.Fold
import GradedAccess.Proofs.Enrolment.Permissions
import GradedAccess.Proofs.Enrolment.Attributes
import GradedAccess.Proofs.Enrolment.Outcome
import GradedAccess.Proofs.Enrolment.Repetition
import GradedAccess.Proofs.Enrolment.Kinds
import GradedAccess.Proofs.Replay.Events
import GradedAccess.Proofs.Scope.Events
import GradedAccess.Proofs.Resolution.Tightening
import GradedAccess.Proofs.Enrolment.Acceptance
import GradedAccess.Proofs.Store.Refusal
import GradedAccess.Proofs.Attribute.Findings
import GradedAccess.Proofs.Wire
import GradedAccess.Proofs.Attribute.Gaps
import GradedAccess.Proofs.Attribute.Inclusion
import GradedAccess.Proofs.Catalog
import GradedAccess.Proofs.Roles.Renewal
import GradedAccess.Proofs.Roles.Ladders
import GradedAccess.Proofs.Resolution.Effective
import GradedAccess.Proofs.Resolution.Grades
import GradedAccess.Proofs.Engine.Sweeping
import GradedAccess.Proofs.Invalidation
import GradedAccess.Proofs.Text.Slug
import GradedAccess.Proofs.Database
import GradedAccess.Proofs.Registry.Calls
import GradedAccess.Proofs.Listener.Backoff
import GradedAccess.Proofs.Config
import GradedAccess.Proofs.IndexedTable
import GradedAccess.Proofs.Stream.Reading
import GradedAccess.Proofs.Reload.Accounting
