import QpRs.Lib.Run
import QpRs.Lib.Forest
import QpRs.Hsm.QHsm
import QpRs.Hsm.Configuration
import QpRs.Hsm.QMsm
import QpRs.Lib.Outcome
import QpRs.Hsm.Agreement
import QpRs.ReadySet
import QpRs.Active
import QpRs.Qk.Scheduler
import QpRs.Qk.Kernel
import QpRs.Qk.Stack
import QpRs.Qk.Idle
import QpRs.Qk.Wakeup
import QpRs.Qk.Smp
import QpRs.Qv.Kernel
import QpRs.Qv.Dispatch
import QpRs.Qv.Cooperation
import QpRs.Qxk.Kernel
import QpRs.Qxk.Nesting
import QpRs.Qxk.Primitives
import QpRs.Qxk.Waiting
import QpRs.Qxk.Accounting
import QpRs.Lib.SavedMax
import QpRs.Lib.Claims
import QpRs.Qxk.Ceiling
import QpRs.Qxk.Smp
import QpRs.Lib.Handoff
import QpRs.Qxk.Messages
import QpRs.Qxk.Planning
import QpRs.Qk.Direct
import QpRs.PubSub
import QpRs.Publish
import QpRs.Qv.Smp
import QpRs.Lib.Bytes
import QpRs.Lib.Framing
import QpRs.Qs.Hdlc
import QpRs.Qs.Tracer
import QpRs.Qs.Decoder
import QpRs.Qs.Rx
import QpRs.Qs.Commands
import QpRs.Qs.Resync
import QpRs.Qs.Sender
import QpRs.Lib.Reading
import QpRs.Qs.Interpreter
import QpRs.Qs.Records
import QpRs.Comms.Buf
import QpRs.Comms.Layer
import QpRs.Comms.Transport
import QpRs.Comms.Delivery
import QpRs.Comms.Net
import QpRs.Comms.Mac
import QpRs.Comms.Stack
import QpRs.Comms.StackAo
import QpRs.Comms.Queue
import QpRs.Comms.Outcomes
import QpRs.Comms.Acks
import QpRs.Comms.Reports
import QpRs.Comms.Fota
import QpRs.Comms.Replay
import QpRs.Lib.Memory
import QpRs.Lib.Stock
import QpRs.Pool.Dis
import QpRs.Pool.QMPool
import QpRs.Pool.Lending
import QpRs.Pool.PoolArc
import QpRs.Pool.Lifecycle
import QpRs.Pool.LastDrop
import QpRs.EQueue.Agreement
import QpRs.Hsm.Transition
import QpRs.Hsm.Depth
import QpRs.Hsm.History
import QpRs.Time.TimeEvent
import QpRs.Time.PostingKernel
import QpRs.Time.TimerWheel
import QpRs.Lib.Switching
import QpRs.Qk.Builder
import QpRs.Qk.Switches
import QpRs.Qxk.Signals
import QpRs.Qxk.Work
import QpRs.Qxk.Yield
import QpRs.Qs.Reads
import QpRs.Qs.TimeRecords
import QpRs.Lib.Table
import QpRs.Qs.Dictionaries
import QpRs.Qs.UserRecords
import QpRs.Lib.Text
import QpRs.Qs.Persistence
import QpRs.Lib.Rounds
import QpRs.Time.Order
import QpRs.Comms.FrameCalls
import QpRs.Comms.Link
import QpRs.Comms.FailedBuilds
import QpRs.Comms.Deciphering
import QpRs.Comms.Verdicts
import QpRs.Pool.EventBox
import QpRs.Lib.Slots
import QpRs.Qs.TestProbes
import QpRs.Qxk.ReadyQueue
import QpRs.Comms.FramePool
import QpRs.Lib.Actors
import QpRs.Lib.Arbiter
import QpRs.Dpp.Forks
import QpRs.Dpp.System
import QpRs.Dpp.Phases
import QpRs.Dpp.Accounts
import QpRs.Dpp.Dining
import QpRs.Lib.Hosting
import QpRs.Qk.Hosting
import QpRs.Qv.Hosting
import QpRs.Dpp.OnKernels
import QpRs.Lib.Keyed
import QpRs.Qs.Frontend
import QpRs.Qs.Relay
import QpRs.Lib.Counters
import QpRs.Comms.Uplink
import QpRs.Comms.OnAir
import QpRs.Comms.Signals
import QpRs.LoraSend.Node
import QpRs.LoraSend.Host
import QpRs.LoraSend.Hearing
import QpRs.EQueue.Deferral
