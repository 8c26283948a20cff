import NntpPool.Common.Bytes
import NntpPool.Common.Transducer
import NntpPool.Common.Run
import NntpPool.Common.Serial
import NntpPool.Common.Shares
import NntpPool.Common.Slice
import NntpPool.Common.Weights
import NntpPool.Model.Errors
import NntpPool.Reader.Model.Response
import NntpPool.Reader.Model.Feed
import NntpPool.Reader.Model.Grammar
import NntpPool.Reader.Model.Validate
import NntpPool.Reader.Native
import NntpPool.Reader.Step
import NntpPool.Reader.Consumption
import NntpPool.Reader.Drive
import NntpPool.Reader.Resume
import NntpPool.Reader.Lines
import NntpPool.Reader.Chunks
import NntpPool.Reader.Integrity
import NntpPool.Reader.Text
import NntpPool.Reader.Frame
import NntpPool.Reader.Yenc
import NntpPool.Reader.Framing
import NntpPool.Reader.Article
import NntpPool.Reader.Grows
import NntpPool.Reader.Window
import NntpPool.Conn.Model.Control
import NntpPool.Conn.Stall
import NntpPool.Conn.Model.Pipeline
import NntpPool.Conn.Model.ReadBuffer
import NntpPool.Conn.Attribution
import NntpPool.Conn.Queue
import NntpPool.Conn.Drain
import NntpPool.Conn.Keepalive
import NntpPool.Dispatch.Model.Retry
import NntpPool.Dispatch.Retries
import NntpPool.Dispatch.Model.Send
import NntpPool.Dispatch.Start
import NntpPool.Dispatch.Evidence
import NntpPool.Dispatch.Summary
import NntpPool.Dispatch.Turn
import NntpPool.Dispatch.Course
import NntpPool.Dispatch.Writer
import NntpPool.Dispatch.Absence
import NntpPool.Dispatch.Failover
import NntpPool.Dispatch.Model.Channel
import NntpPool.Dispatch.Channel
import NntpPool.Dispatch.Probing
import NntpPool.Dispatch.Trace
import NntpPool.Client.Payload
import NntpPool.Client.Model.Requests
import NntpPool.Client.Eligible
import NntpPool.Registry.Model.Registry
import NntpPool.Registry.Order
import NntpPool.Registry.Atomicity
import NntpPool.Breaker.Model.Breaker
import NntpPool.Breaker.Invariant
import NntpPool.Breaker.History
import NntpPool.Pool.Model.Request
import NntpPool.Pool.Model.Conn
import NntpPool.Pool.Model.Pool
import NntpPool.Pool.Model.Bootstrap
import NntpPool.Common.Stamps
import NntpPool.Pool.Model.Clock
import NntpPool.Pool.Steps
import NntpPool.Pool.Places
import NntpPool.Pool.Owned
import NntpPool.Pool.Buffer
import NntpPool.Pool.Stranded
import NntpPool.Pool.Quiescence
import NntpPool.Pool.Occupancy
import NntpPool.Pool.Shutdown
import NntpPool.Pool.Replies
import NntpPool.Pool.Absence
import NntpPool.Pool.Cancellation
import NntpPool.Pool.Fresh
import NntpPool.Post.Model.Post
import NntpPool.Post.Start
import NntpPool.Post.Whole
import NntpPool.Gate.Model.Gate
import NntpPool.Gate.Slots
import NntpPool.Gate.Timers
import NntpPool.Quota.Model.Quota
import NntpPool.Quota.Flag
import NntpPool.Quota.Period
import NntpPool.Quota.Reconnect
import NntpPool.Gate.Model.Enter
import NntpPool.Gate.Wakeup
import NntpPool.Pool.Deferred
import NntpPool.Pool.Progress
import NntpPool.Pool.Model.Tokens
import NntpPool.Pool.Model.Wire
import NntpPool.Pool.Wire
import NntpPool.Common.Decimal
import NntpPool.Reader.Names
import NntpPool.Reader.Headers
import NntpPool.Reader.Ranges
import NntpPool.Reader.Stuffing
import NntpPool.Reader.Encoding
import NntpPool.Registry.Lookup
import NntpPool.Registry.Model.Client
import NntpPool.Registry.Derived
import NntpPool.Registry.Model.Removal
import NntpPool.Registry.Removal
import NntpPool.Common.Space
import NntpPool.Common.Lines
import NntpPool.Post.Model.Headers
import NntpPool.Post.Block
import NntpPool.Post.ReadBack
import NntpPool.Common.Words
import NntpPool.Post.Fold
import NntpPool.Post.Limit
import NntpPool.Breaker.Unobserved
import NntpPool.Post.Date
import NntpPool.Client.Model.StatMany
import NntpPool.Client.Sweep
import NntpPool.Post.Release
