import Stepwise.Api.Service
import Stepwise.DatabaseUrl
import Stepwise.Logging
import Stepwise.Run.Simulation
import Stepwise.Signature.Hmac
import Stepwise.Signature.Token
import Stepwise.Workflow.StepSet
import Stepwise.Proofs.Program.Contract
import Stepwise.Proofs.Run.Uncancelled
import Stepwise.Proofs.Run.Discipline
import Stepwise.Proofs.Store.Aside
import Stepwise.Proofs.Execution.Record
import Stepwise.Proofs.Execution.World
import Stepwise.Proofs.Execution.Account
import Stepwise.Proofs.Execution.Response
import Stepwise.Proofs.Execution.Invariant
import Stepwise.Proofs.Execution.Report
import Stepwise.Proofs.Execution.Finality
import Stepwise.Proofs.Execution.Stopping
import Stepwise.Proofs.Run.Yields
import Stepwise.Proofs.Run.LogGrammar
import Stepwise.Proofs.Run.Breaks
import Stepwise.Proofs.Run.BrokenLog
import Stepwise.Proofs.Run.Course
import Stepwise.Proofs.Run.CutShort
import Stepwise.Proofs.Run.Rules
import Stepwise.Proofs.Run.Termination
import Stepwise.Proofs.Execution.Aftermath
import Stepwise.Proofs.Step.Relabel
import Stepwise.Proofs.Run.Relabel
import Stepwise.Proofs.Run.Nesting
import Stepwise.Proofs.Run.Limit
import Stepwise.Proofs.Execution.Requests
import Stepwise.Proofs.Store.Spared
import Stepwise.Proofs.Server.Play
import Stepwise.Proofs.Server.Schedule
import Stepwise.Proofs.Server.Tables
import Stepwise.Proofs.Execution.WellFormed
import Stepwise.Proofs.Server.Records
import Stepwise.Proofs.Trigger.Acceptance
import Stepwise.Proofs.Trigger.Changes
import Stepwise.Proofs.Trigger.Bookkeeping
import Stepwise.Proofs.Store.InPlace
import Stepwise.Proofs.Json.Proper
import Stepwise.Proofs.Workflow.Accepted
import Stepwise.Proofs.Workflow.Rows
import Stepwise.Proofs.Workflow.Writes
import Stepwise.Proofs.Workflow.Revision
import Stepwise.Proofs.Workflow.Versions
import Stepwise.Proofs.Workflow.Intact
import Stepwise.Proofs.Server.References
import Stepwise.Proofs.Json.Strings
import Stepwise.Proofs.Number.Digits
import Stepwise.Proofs.Signature.Decisive
import Stepwise.Proofs.Number.Rounding
import Stepwise.Proofs.Number.Numeral
import Stepwise.Proofs.Number.Shortest
import Stepwise.Proofs.Number.Spelling
import Stepwise.Proofs.Json.Numbers
import Stepwise.Proofs.Json.Notations
import Stepwise.Proofs.Json.Document
import Stepwise.Proofs.Json.Reading
import Stepwise.Proofs.Signature.Caller
import Stepwise.Proofs.Json.Received
import Stepwise.Proofs.Api.Reading
import Stepwise.Proofs.Api.History
import Stepwise.Proofs.Workflow.Acceptance
import Stepwise.Proofs.Workflow.Resubmission
import Stepwise.Proofs.Server.Stock
import Stepwise.Proofs.Value.Equality
import Stepwise.Proofs.Api.Resubmission
import Stepwise.Proofs.Template.Findings
import Stepwise.Proofs.Run.Variables
import Stepwise.Proofs.Server.Foreground
import Stepwise.Proofs.Api.Answer
import Stepwise.Proofs.Run.Tasks
import Stepwise.Proofs.Server.Notifications
import Stepwise.Proofs.Server.Standing
import Stepwise.Proofs.Execution.Likeness
import Stepwise.Proofs.Execution.Crowd
import Stepwise.Proofs.Template.Tokens
import Stepwise.Proofs.Template.Access
import Stepwise.Proofs.Template.Filling
import Stepwise.Proofs.Workflow.Ancestry
import Stepwise.Proofs.Condition.Ordering
import Stepwise.Proofs.Run.Leaves
import Stepwise.Proofs.Run.Declared
import Stepwise.Proofs.Run.Failure
import Stepwise.Proofs.Store.Commits
import Stepwise.Proofs.Server.Steps
import Stepwise.Proofs.Run.Chains
import Stepwise.Proofs.Text.Padding
import Stepwise.Proofs.Value.Fields
import Stepwise.Proofs.Template.Places
import Stepwise.Proofs.Template.Sole
import Stepwise.Proofs.Value.Order
import Stepwise.Proofs.Condition.Duality
import Stepwise.Proofs.Outbound.Headers
import Stepwise.Proofs.Step.Index
