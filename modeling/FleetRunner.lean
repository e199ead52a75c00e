import FleetRunner.Library.Table
import FleetRunner.Library.Runs
import FleetRunner.Library.Fallible
import FleetRunner.Library.Patterns
import FleetRunner.Library.Maximum
import FleetRunner.Library.Percent
import FleetRunner.Library.Blocks
import FleetRunner.Js.Value
import FleetRunner.Js.Text
import FleetRunner.Match
import FleetRunner.MatchAccepted
import FleetRunner.Reserved
import FleetRunner.Skip
import FleetRunner.Db
import FleetRunner.DepRefs
import FleetRunner.Shared
import FleetRunner.Mutations
import FleetRunner.Queue
import FleetRunner.Hygiene
import FleetRunner.Server
import FleetRunner.Collector
import FleetRunner.ExecutorTargets
import FleetRunner.Waiters
import FleetRunner.Lifecycle
import FleetRunner.Registry
import FleetRunner.Chains
import FleetRunner.Terminal
import FleetRunner.Ownership
import FleetRunner.Locks
import FleetRunner.Attempts
import FleetRunner.Repost
import FleetRunner.Preview
import FleetRunner.Routing
import FleetRunner.Selection
import FleetRunner.Freshness
import FleetRunner.Summary
import FleetRunner.Uploads
import FleetRunner.Alerts
import FleetRunner.Registration
import FleetRunner.Auth
import FleetRunner.DeviceState
import FleetRunner.Findings.Schema
import FleetRunner.Findings.Issues
import FleetRunner.Findings.Store
import FleetRunner.Findings.Verdicts
import FleetRunner.Findings.Machine
import FleetRunner.Findings.Duplicates
import FleetRunner.Findings.States
import FleetRunner.Findings.Sightings
import FleetRunner.Findings.ReplayFiles
import FleetRunner.Findings.IssueCap
import FleetRunner.Findings.Reopening
import FleetRunner.Findings.Validate
import FleetRunner.Explore.Types
import FleetRunner.Explore.Report
import FleetRunner.Explore.Mission
import FleetRunner.Explore.Filing
import FleetRunner.Explore.Replay
import FleetRunner.Explore.Loop
import FleetRunner.Network.Host
import FleetRunner.Network.Android
import FleetRunner.Machine.Job
import FleetRunner.Machine.Shell
import FleetRunner.Machine.Serve
import FleetRunner.Machine.Agent
import FleetRunner.Machine.Gate
import FleetRunner.Machine.Cancelling
import FleetRunner.Fleet.Supervised
import FleetRunner.Explore.ScreenMap
import FleetRunner.Pins
import FleetRunner.Settlement
import FleetRunner.References
import FleetRunner.ReviewDigest
import FleetRunner.Explore.Conversation
import FleetRunner.Evals.Order
import FleetRunner.Embed.Agreement
import FleetRunner.Transactions
import FleetRunner.CronWalk
import FleetRunner.Artifacts
import FleetRunner.Findings.IssueText
import FleetRunner.MatchPrint
import FleetRunner.ScheduleRuns
import FleetRunner.Explore.Leash
import FleetRunner.Explore.Normalize
import FleetRunner.Explore.Night
import FleetRunner.A11y.Findings
import FleetRunner.A11y.Uiautomator
import FleetRunner.Network.Tailnet
import FleetRunner.Regressions
import FleetRunner.Machine.Tail
import FleetRunner.Machine.Converters
import FleetRunner.Machine.Scoring
import FleetRunner.Zip.Archive
import FleetRunner.Android.Thermal
import FleetRunner.Android.Crashes
import FleetRunner.Explore.Typing
import FleetRunner.Watts
import FleetRunner.Fleet.Survival
import FleetRunner.Ios.Unpacked
import FleetRunner.Ios.VisionEval
import FleetRunner.Junit.Counts
import FleetRunner.ClaimOrder
import FleetRunner.Leases
import FleetRunner.Machine.Beaconing
import FleetRunner.Library.Feed
import FleetRunner.Pipeline
import FleetRunner.Tokens
import FleetRunner.Library.Splice
import FleetRunner.Redact
import FleetRunner.Library.Window
import FleetRunner.Gateway.Limits
import FleetRunner.Gateway.OAuth
import FleetRunner.Library.Firsts
import FleetRunner.Js.Padded
import FleetRunner.Machine.DatasetPrep
import FleetRunner.Ios.PreparedSet
import FleetRunner.Library.Settling
import FleetRunner.Ios.DriverHTTP
import FleetRunner.Fleet.Environment
import FleetRunner.Desktop.Config
import FleetRunner.Desktop.Settings
import FleetRunner.Library.Lockstep
import FleetRunner.Library.Overwrite
import FleetRunner.Synthetic
import FleetRunner.Dispatch
