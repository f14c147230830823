import Overseer.Word
import Overseer.Duration
import Overseer.Clock
import Overseer.Binary64
import Overseer.Dict
import Overseer.Json.Number
import Overseer.Json.Basic
import Overseer.Json.Document
import Overseer.Json.Decode
import Overseer.OsError
import Overseer.Status
import Overseer.Limits
import Overseer.Chat
import Overseer.Error
import Overseer.Blank
import Overseer.Timestamp
import Overseer.Context
import Overseer.Record
import Overseer.Utf8
import Overseer.FileSystem.Path
import Overseer.FileSystem.Basic
import Overseer.FileSystem.Resolve
import Overseer.FileSystem.Operations
import Overseer.Workspace
import Overseer.Transcript
import Overseer.Toml.Value
import Overseer.Toml.Scalar
import Overseer.Toml.Reader
import Overseer.CommandLine.Options
import Overseer.CommandLine.Command
import Overseer.Config.Layer
import Overseer.Config.Load
import Overseer.Uuid
import Overseer.Scope
import Overseer.Agent.Run
import Overseer.Agent.Executor
import Overseer.Agent.InFlight
import Overseer.Supervisor.Entry
import Overseer.Supervisor.Machine
import Overseer.Rehearsal.Task
import Overseer.Rehearsal.Script
import Overseer.Rehearsal.Stage
import Overseer.Rehearsal.Play
import Overseer.Http.Host
import Overseer.Http.Url
import Overseer.Http.Exchange
import Overseer.Model.Provider
import Overseer.Model.Turn
import Overseer.Model.Reading
import Overseer.Model.Client
import Overseer.Program.Session
import Overseer.Program.Run
import Overseer.Main
import Overseer.Proofs.Supervisor.Moves
import Overseer.Proofs.Supervisor.Runs
import Overseer.Proofs.Supervisor.Latch
import Overseer.Proofs.Supervisor.Notices
import Overseer.Proofs.Supervisor.Turns
import Overseer.Proofs.Supervisor.Map
import Overseer.Proofs.Supervisor.Frames
import Overseer.Proofs.Supervisor.Keepers
import Overseer.Proofs.Supervisor.Succession
import Overseer.Proofs.Supervisor.Reports
import Overseer.Proofs.FileSystem.Path
import Overseer.Proofs.FileSystem.Tree
import Overseer.Proofs.FileSystem.Walk
import Overseer.Proofs.FileSystem.Making
import Overseer.Proofs.FileSystem.Content
import Overseer.Proofs.FileSystem.Straight
import Overseer.Proofs.FileSystem.Writing
import Overseer.Proofs.FileSystem.Enumeration
import Overseer.Proofs.Text.Encoding
import Overseer.Proofs.Workspace.Containment
import Overseer.Proofs.Workspace.Listing
import Overseer.Proofs.Workspace.Calls
import Overseer.Proofs.Workspace.Writing
import Overseer.Proofs.Workspace.Entries
import Overseer.Proofs.Workspace.Outcomes
import Overseer.Proofs.Transcript.Lines
import Overseer.Proofs.Transcript.Reach
import Overseer.Proofs.Json.Text
import Overseer.Proofs.Json.Reading
import Overseer.Proofs.Model.Turn
import Overseer.Proofs.Agent.Executions
import Overseer.Proofs.Agent.Success
import Overseer.Proofs.Supervisor.Admission
import Overseer.Proofs.Supervisor.Watch
import Overseer.Proofs.Supervisor.Shutdown
import Overseer.Proofs.Supervisor.Surveys
import Overseer.Proofs.Agent.Answers
import Overseer.Proofs.Agent.Cancellation
import Overseer.Proofs.Agent.Registry
import Overseer.Proofs.Agent.Conversation
import Overseer.Proofs.Agent.Accounting
import Overseer.Proofs.Agent.Surroundings
import Overseer.Proofs.Agent.Loosening
import Overseer.Proofs.Agent.Deadline
import Overseer.Proofs.Agent.Verdicts
import Overseer.Proofs.Supervisor.Starting
import Overseer.Proofs.Supervisor.Ledger
import Overseer.Proofs.Supervisor.Separation
import Overseer.Proofs.Supervisor.Provenance
import Overseer.Proofs.Transcript.Reading
import Overseer.Proofs.Transcript.Writers
import Overseer.Proofs.Program.Order
import Overseer.Proofs.Supervisor.Refusal
import Overseer.Proofs.Scope.Tree
import Overseer.Proofs.Supervisor.Contexts
import Overseer.Proofs.Agent.Guarded
import Overseer.Proofs.Agent.FileTools
import Overseer.Proofs.Config.Files
import Overseer.Proofs.Config.Layers
import Overseer.Proofs.Config.Workspace
import Overseer.Proofs.CommandLine.Arguments
import Overseer.Proofs.CommandLine.Tools
import Overseer.Proofs.Program.Governed
import Overseer.Proofs.Program.Allowlist
import Overseer.Proofs.Program.Checks
import Overseer.Proofs.Codec.Members
import Overseer.Proofs.Codec.Laws
import Overseer.Proofs.Codec.Timestamp
import Overseer.Proofs.Codec.RoundTrip
