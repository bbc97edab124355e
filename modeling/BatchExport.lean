import BatchExport.Cause
import BatchExport.CommandLine.Command
import BatchExport.CommandLine.Console
import BatchExport.CommandLine.Execute
import BatchExport.CommandLine.ExitCode
import BatchExport.CommandLine.Grammar
import BatchExport.CommandLine.Inspect
import BatchExport.CommandLine.Reach
import BatchExport.CommandLine.RunExport
import BatchExport.CommandLine.SampleConfig
import BatchExport.CommandLine.Usage
import BatchExport.CommandLine.WriteSample
import BatchExport.Completion
import BatchExport.Config.Decode
import BatchExport.Config.Loading
import BatchExport.Config.Overrides
import BatchExport.Config.Printer
import BatchExport.Config.Problem
import BatchExport.Config.Reading
import BatchExport.Config.Settings
import BatchExport.Config.Substitution
import BatchExport.Decimal.Binary64
import BatchExport.Decimal.Fixed
import BatchExport.Decimal.Power
import BatchExport.Decimal.Shortest
import BatchExport.Effect
import BatchExport.Enrichment
import BatchExport.Entries
import BatchExport.Environment
import BatchExport.Execution
import BatchExport.Export.Job
import BatchExport.Export.Plan
import BatchExport.Export.RecordSource
import BatchExport.Failure
import BatchExport.Files.Cleanup
import BatchExport.Files.Path
import BatchExport.Files.Staged
import BatchExport.Files.Storage
import BatchExport.Files.Tree
import BatchExport.Files.WorkPath
import BatchExport.Job.ChunkStep
import BatchExport.JobId
import BatchExport.Json.Access
import BatchExport.Json.Decode
import BatchExport.Json.Parser
import BatchExport.Json.Printer
import BatchExport.Json.Value
import BatchExport.Lifecycle.Bindings
import BatchExport.Lifecycle.Command
import BatchExport.Lifecycle.Listener
import BatchExport.Lifecycle.RollbackCall
import BatchExport.Lifecycle.Run
import BatchExport.Lifecycle.Runner
import BatchExport.Lifecycle.RunningSet
import BatchExport.Lifecycle.Surroundings
import BatchExport.Lifecycle.Task
import BatchExport.Lifecycle.Worker
import BatchExport.Logging
import BatchExport.Main
import BatchExport.OutputFiles
import BatchExport.Paging.CursorSource
import BatchExport.Paging.OffsetSource
import BatchExport.Paging.Page
import BatchExport.Proofs.Effect
import BatchExport.Proofs.Export.Accounting
import BatchExport.Proofs.Export.Delivery
import BatchExport.Proofs.Export.Enrichment
import BatchExport.Proofs.Export.Services
import BatchExport.Proofs.Export.Staging
import BatchExport.Proofs.Export.Stored
import BatchExport.Proofs.Export.Survival
import BatchExport.Proofs.Files.Cleanup
import BatchExport.Proofs.Files.Path
import BatchExport.Proofs.Files.Staged
import BatchExport.Proofs.Files.JobScope
import BatchExport.Proofs.Files.Parent
import BatchExport.Proofs.Files.Storage
import BatchExport.Proofs.Files.Tree
import BatchExport.Proofs.Job.Calls
import BatchExport.Proofs.Job.RunsOut
import BatchExport.Proofs.Job.Accounting
import BatchExport.Proofs.Job.CallAccounts
import BatchExport.Proofs.Job.Erasure
import BatchExport.Proofs.Job.FlowLog
import BatchExport.Proofs.Job.Keeping
import BatchExport.Proofs.Json.Printer
import BatchExport.Proofs.Lifecycle.Ending
import BatchExport.Proofs.Lifecycle.Erasure
import BatchExport.Proofs.Lifecycle.Returning
import BatchExport.Proofs.Lifecycle.Telling
import BatchExport.Proofs.Lifecycle.Exclusion
import BatchExport.Proofs.Lifecycle.Ledger
import BatchExport.Proofs.Lifecycle.Scene
import BatchExport.Proofs.Lifecycle.Steps
import BatchExport.Reference.Cache
import BatchExport.Reference.Kind
import BatchExport.Registry
import BatchExport.Remote.Client
import BatchExport.Remote.Collection
import BatchExport.Remote.Network
import BatchExport.Remote.Publisher
import BatchExport.Remote.References
import BatchExport.Remote.Retry
import BatchExport.Remote.RetryPolicy
import BatchExport.Report
import BatchExport.Script.Decode
import BatchExport.Script.Lifecycle
import BatchExport.Script.Pages
import BatchExport.Script.Printer
import BatchExport.Script.References
import BatchExport.Script.Step
import BatchExport.Status
import BatchExport.StatusRecord
import BatchExport.Summary
import BatchExport.Text.Blank
import BatchExport.Text.Csv
import BatchExport.Text.Decimal
import BatchExport.Text.Lower
import BatchExport.Text.Pieces
import BatchExport.Time.Calendar
import BatchExport.Time.Instant
import BatchExport.Toml.Parser
import BatchExport.Toml.Quoted
import BatchExport.Toml.Scalar
import BatchExport.Toml.Table
import BatchExport.Proofs.Text.Blank
import BatchExport.Proofs.Text.Pieces
import BatchExport.Proofs.OutputFiles
import BatchExport.Proofs.Paging.Fetches
import BatchExport.Proofs.Paging.OffsetSource
import BatchExport.Proofs.Paging.OffsetScript
import BatchExport.Proofs.Paging.CursorSource
import BatchExport.Proofs.Paging.CursorScript
import BatchExport.Proofs.Export.Fetching
import BatchExport.Proofs.Export.Stopping
import BatchExport.Proofs.Lifecycle.Snapshots
import BatchExport.Proofs.Lifecycle.Acknowledging
import BatchExport.Proofs.Export.Listing
import BatchExport.Proofs.Export.Leftovers
import BatchExport.Proofs.Lifecycle.StopAnswers
import BatchExport.Proofs.Lifecycle.Restoring
import BatchExport.Proofs.Reference.Entries
import BatchExport.Proofs.Reference.Lookups
import BatchExport.Proofs.Reference.Transparency
import BatchExport.Proofs.Reference.Accounting
import BatchExport.Proofs.Paging.OffsetReading
import BatchExport.Proofs.Files.Writing
import BatchExport.Proofs.Export.Outcomes
import BatchExport.Proofs.Export.Exhausting
import BatchExport.Proofs.Export.Completing
import BatchExport.Proofs.Export.Sizes
import BatchExport.Proofs.Files.Components
import BatchExport.Proofs.Files.Placement
import BatchExport.Proofs.Files.Copies
import BatchExport.Proofs.Json.Members
import BatchExport.Proofs.Export.DirectEnrichment
import BatchExport.Proofs.Export.CachedEnrichment
import BatchExport.Proofs.Json.Numbers
import BatchExport.Proofs.Json.RoundTrip
import BatchExport.Proofs.Text.Csv
import BatchExport.Proofs.Files.ReadBack
import BatchExport.Proofs.Config.Placeholders
import BatchExport.Proofs.Config.Substitution
import BatchExport.Proofs.Files.OwnCleanup
import BatchExport.Proofs.Export.Swept
import BatchExport.Proofs.Remote.Retry
import BatchExport.Proofs.Remote.Requests
import BatchExport.Proofs.Remote.Address
import BatchExport.Proofs.Remote.IdLookups
import BatchExport.Proofs.Lifecycle.FailedRollback
import BatchExport.Proofs.Config.Validity
import BatchExport.Proofs.Reference.Queries
import BatchExport.Proofs.Time.Calendar
import BatchExport.Proofs.Text.Decimal
import BatchExport.Proofs.Time.Instant
import BatchExport.Proofs.StatusRecord
import BatchExport.Proofs.JobId
import BatchExport.Proofs.Paging.PageRequests
import BatchExport.Proofs.Remote.PageParameters
import BatchExport.Proofs.Cause
import BatchExport.Proofs.Export.IndependentRules
import BatchExport.Proofs.Config.Capacities
import BatchExport.Proofs.Files.CleanupReport
import BatchExport.Proofs.Execution
