import BatchEngine.Lib.Runs
import BatchEngine.Lib.Dict
import BatchEngine.Lib.BoundedQueue
import BatchEngine.Core.Models
import BatchEngine.Core.RateLimit
import BatchEngine.Core.Retry
import BatchEngine.Lib.StepRate
import BatchEngine.Core.Pacing
import BatchEngine.Core.Probe
import BatchEngine.Core.Sink
import BatchEngine.Core.Scheduler
import BatchEngine.Core.Segments
import BatchEngine.Core.Turns
import BatchEngine.Core.JobTurns
import BatchEngine.Lib.Custody
import BatchEngine.Core.Custody
import BatchEngine.Core.Conservation
import BatchEngine.Core.Amplification
import BatchEngine.Core.TerminalStatus
import BatchEngine.Providers.DigitalOcean
import BatchEngine.Core.SpendLedger
import BatchEngine.Core.SpendGuard
import BatchEngine.Core.ProbeOwner
import BatchEngine.Core.Stop
import BatchEngine.Lib.JsonText
import BatchEngine.Lib.TextFile
import BatchEngine.Lib.JsonRoundTrip
import BatchEngine.Core.ResultFile
import BatchEngine.Api.Download
import BatchEngine.Core.SinkOrder
import BatchEngine.Core.Shutdown
import BatchEngine.Core.Settlement
import BatchEngine.Api.Visible
import BatchEngine.Core.History
import BatchEngine.Core.FinalStatus
import BatchEngine.Core.FailureClasses
import BatchEngine.Core.Durability
import BatchEngine.Core.IngestBridge
import BatchEngine.Core.Ingest
import BatchEngine.Core.ItemCap
import BatchEngine.Core.JobBill
import BatchEngine.Api.Submit
import BatchEngine.Api.Status
import BatchEngine.Core.Aimd
import BatchEngine.Core.Timeline
import BatchEngine.Core.Streak
import BatchEngine.Core.Drive
import BatchEngine.Core.SafetyNet
import BatchEngine.Core.Allowance
import BatchEngine.Core.HardPause
import BatchEngine.Core.RowIds
import BatchEngine.Providers.Replies
import BatchEngine.Lib.SlidingWindow
import BatchEngine.Providers.Mock
import BatchEngine.Lib.PyDecimal
import BatchEngine.Core.MockedJob
import BatchEngine.Core.Quota
import BatchEngine.Core.BreakerTrip
import BatchEngine.Core.Sniff
import BatchEngine.Core.FlushLag
import BatchEngine.Lib.JsonTree
import BatchEngine.Lib.PyFloat
import BatchEngine.Core.LedgerCrash
import BatchEngine.Extensions.Spaces
import BatchEngine.Lib.IpAddress
import BatchEngine.Lib.Url
import BatchEngine.Extensions.Webhook
import BatchEngine.Lib.JsonField
import BatchEngine.Store.Sqlite
import BatchEngine.Core.Completion
import BatchEngine.Core.Recovery
import BatchEngine.Core.RowOrder
import BatchEngine.Core.Snapshots
import BatchEngine.Api.Application
import BatchEngine.Api.Hosting
import BatchEngine.Api.Backpressure
import BatchEngine.Api.EndToEnd
import BatchEngine.Api.PartialDownload
import BatchEngine.Core.Outage
