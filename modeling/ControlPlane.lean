import ControlPlane.Lib.Program
import ControlPlane.Lib.Pool
import ControlPlane.Lib.Binary64
import ControlPlane.Python
import ControlPlane.Registry.Models
import ControlPlane.Registry.Dynamo
import ControlPlane.Registry.Repository
import ControlPlane.Registry.ReadBack
import ControlPlane.Activities.Idempotency
import ControlPlane.Activities.Provider
import ControlPlane.Activities.Payment
import ControlPlane.Activities.Dispute
import ControlPlane.Registry.Entities
import ControlPlane.Registry.Maps
import ControlPlane.Registry.Rows
import ControlPlane.Registry.Scans
import ControlPlane.Activities.Exclusion
import ControlPlane.Lib.Machine
import ControlPlane.Workflows.Threshold
import ControlPlane.Workflows.Gates
import ControlPlane.Workflows.AgentJob
import ControlPlane.Lib.ReadWrite
import ControlPlane.Registry.Installs
import ControlPlane.Sessions
import ControlPlane.Registry.Documents
import ControlPlane.Registry.Manifest
import ControlPlane.Registry.Validate
import ControlPlane.Workflows.JobRun
import ControlPlane.Cli.Commands
import ControlPlane.Api.Events
import ControlPlane.Cli.Publish
import ControlPlane.Cli.Published
import ControlPlane.Ui.Reconnect
import ControlPlane.Activities.Replay
import ControlPlane.Activities.CallIds
import ControlPlane.Activities.JobStarted
import ControlPlane.Activities.KillSwitch
import ControlPlane.Registry.Fleet
import ControlPlane.Cli.InstallHistory
import ControlPlane.Scripts.Reset
import ControlPlane.Workflows.Prompt
import ControlPlane.Workflows.FieldSearch
import ControlPlane.Cli.AgentList
import ControlPlane.Lib.Utf8
import ControlPlane.Lib.Json
import ControlPlane.Activities.Hosted
import ControlPlane.Api.Agents
import ControlPlane.Lib.Rank
import ControlPlane.Registry.Metrics
import ControlPlane.Lib.Digits
import ControlPlane.Datetime
import ControlPlane.Registry.JobIndex
import ControlPlane.Api.Jobs
import ControlPlane.Lib.Replace
import ControlPlane.Lib.FileTree
import ControlPlane.Registry.Scaffold
import ControlPlane.Cli.Init
import ControlPlane.Config
import ControlPlane.Scripts.Preflight
import ControlPlane.Lib.Effect
import ControlPlane.Ui.App
import ControlPlane.Lib.Runs
import ControlPlane.Ui.Transcript
import ControlPlane.Activities.Sandbox
import ControlPlane.Registry.Deployment
import ControlPlane.Ui.Follow
import ControlPlane.Ui.SessionPane
import ControlPlane.Workflows.Supervised
import ControlPlane.Workflows.TenantMemory
import ControlPlane.Lib.Numeral
import ControlPlane.Lib.JsonWrite
import ControlPlane.Lib.Base64
import ControlPlane.Dumps
import ControlPlane.Activities.Payloads
import ControlPlane.Lib.Fair
import ControlPlane.Workflows.AutoApproval
import ControlPlane.Lib.Asked
import ControlPlane.Scripts.ResetScope
