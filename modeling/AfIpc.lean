import AfIpc.Ipc.Apart
import AfIpc.Ipc.Correlation
import AfIpc.Ipc.Dispatch
import AfIpc.Ipc.Endpoint
import AfIpc.Ipc.Grouping
import AfIpc.Ipc.InOrder
import AfIpc.Ipc.Memory
import AfIpc.Ipc.MemoryRefines
import AfIpc.Ipc.Message
import AfIpc.Ipc.Outcomes
import AfIpc.Ipc.Pending
import AfIpc.Ipc.PendingAge
import AfIpc.Ipc.PendingUnique
import AfIpc.Ipc.Receive
import AfIpc.Ipc.RequestSpec
import AfIpc.Ipc.Requests
import AfIpc.Ipc.Rollback
import AfIpc.Ipc.Sizes
import AfIpc.Ipc.Timed
import AfIpc.Ipc.Timers
import AfIpc.Ipcc.Client
import AfIpc.Ipcc.Closing
import AfIpc.Ipcc.InOrder
import AfIpc.Ipcc.Kept
import AfIpc.Ipcc.Lifecycle
import AfIpc.Ipcc.Refines
import AfIpc.Ipcc.Reported
import AfIpc.Ipcc.Runs
import AfIpc.Ipcs.Accept
import AfIpc.Ipcs.AcceptFailure
import AfIpc.Ipcs.Clients
import AfIpc.Ipcs.Descriptors
import AfIpc.Ipcs.InOrder
import AfIpc.Ipcs.Isolation
import AfIpc.Ipcs.Lifecycle
import AfIpc.Ipcs.Refines
import AfIpc.Ipcs.Runs
import AfIpc.Ipcs.Server
import AfIpc.Ipcs.Teardown
import AfIpc.Lib.Bytes
import AfIpc.Lib.CString
import AfIpc.Lib.Chain
import AfIpc.Lib.FirstMatch
import AfIpc.Lib.History
import AfIpc.Lib.Run
import AfIpc.Lib.Splitter
import AfIpc.Rpc.Acceptance
import AfIpc.Rpc.BuilderBounds
import AfIpc.Rpc.BuilderSpec
import AfIpc.Rpc.Builders
import AfIpc.Rpc.Canonical
import AfIpc.Rpc.Count
import AfIpc.Rpc.DecoderBounds
import AfIpc.Rpc.DecoderSpec
import AfIpc.Rpc.Decoders
import AfIpc.Rpc.GetterBounds
import AfIpc.Rpc.GetterWalk
import AfIpc.Rpc.Grammar
import AfIpc.Rpc.Incremental
import AfIpc.Rpc.Modes
import AfIpc.Rpc.PrefixWidth
import AfIpc.Rpc.ReadBack
import AfIpc.Rpc.Reuse
import AfIpc.Rpc.RoundTrip
import AfIpc.Rpc.Types
import AfIpc.System.Exchange
import AfIpc.System.Framing
import AfIpc.System.InOrder
import AfIpc.System.Outcomes
import AfIpc.System.RemoteCalls
import AfIpc.System.ReplyPath
import AfIpc.System.Timers
import AfIpc.Tools.Arguments
import AfIpc.Tools.Buffers
import AfIpc.Tools.Dealloc
import AfIpc.Tools.Integers
import AfIpc.Tools.Latest
import AfIpc.Tools.Printable
import AfIpc.Tools.Program
import AfIpc.Tools.Rendering
import AfIpc.Tools.Reply
import AfIpc.Tools.Runs
import AfIpc.Tools.Sending
import AfIpc.Tools.Session
