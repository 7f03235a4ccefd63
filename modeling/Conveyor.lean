import Conveyor.Json.Reader
import Conveyor.Main
import Conveyor.Proofs.Graph.Acyclic
import Conveyor.Proofs.Graph.Order
import Conveyor.Rehearsal
import Conveyor.Yaml.Printer
import Conveyor.Proofs.Run.Marks
import Conveyor.Proofs.Scheduler.Driver
import Conveyor.Proofs.Scheduler.Move
import Conveyor.Proofs.Scheduler.Operations
import Conveyor.Proofs.Scheduler.Exclusion
import Conveyor.Proofs.Scheduler.Ledger
import Conveyor.Proofs.Scheduler.Completion
import Conveyor.Proofs.Scheduler.Overlap
import Conveyor.Proofs.Scheduler.Sequential
import Conveyor.Proofs.Scheduler.Confluence
import Conveyor.Proofs.Scheduler.Starts
import Conveyor.Proofs.Scheduler.Aftermath
import Conveyor.Proofs.Scheduler.FailFast
import Conveyor.Proofs.Scheduler.Signals
import Conveyor.Proofs.Scheduler.Skips
import Conveyor.Proofs.Graph.Cycle
import Conveyor.Proofs.Graph.Least
import Conveyor.Proofs.Graph.Queries
import Conveyor.Proofs.Output.Resolution
import Conveyor.Proofs.Scheduler.Cancellation
import Conveyor.Proofs.Scheduler.Propagation
import Conveyor.Proofs.Condition.Scanning
import Conveyor.Proofs.Condition.Grammar
import Conveyor.Proofs.Condition.Reading
import Conveyor.Proofs.Condition.Rendering
import Conveyor.Proofs.Pipeline.Validity
import Conveyor.Proofs.Scheduler.Isolation
import Conveyor.Proofs.Scheduler.Plan
import Conveyor.Proofs.Run.Calls
import Conveyor.Proofs.Text.Lines
import Conveyor.Proofs.Text.Bytes
import Conveyor.Proofs.Run.Fingerprint
import Conveyor.Proofs.Text.Replacement
import Conveyor.Proofs.Output.Markers
import Conveyor.Proofs.Output.Printing
import Conveyor.Proofs.Secret.Masking
import Conveyor.Proofs.Run.Records
import Conveyor.Proofs.Scheduler.Notices
import Conveyor.Proofs.Json.RoundTrip
import Conveyor.Proofs.Pipeline.RoundTrip
import Conveyor.Proofs.Secret.Order
import Conveyor.Proofs.Condition.Failures
import Conveyor.Proofs.Gate.Foresight
import Conveyor.Proofs.Gate.Admission
import Conveyor.Proofs.Scheduler.Queue
import Conveyor.Proofs.Scheduler.ExitCodes
import Conveyor.Proofs.Pipeline.Policies
import Conveyor.Proofs.Pipeline.References
import Conveyor.Proofs.Scheduler.Limits
import Conveyor.Proofs.Scheduler.LateCancel
import Conveyor.Proofs.Scheduler.DefaultPolicy
import Conveyor.Proofs.Scheduler.IdlePolicy
import Conveyor.Proofs.Graph.Mermaid
import Conveyor.Proofs.Graph.Dot
import Conveyor.Proofs.Scheduler.LockHistory
import Conveyor.Proofs.Yaml.Lines
import Conveyor.Proofs.Yaml.History
import Conveyor.Proofs.Yaml.Quoted
import Conveyor.Proofs.Pipeline.Translation
import Conveyor.Proofs.Template.Loading
import Conveyor.Proofs.Template.Names
