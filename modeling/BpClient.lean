import BpClient.Arrays.Bools
import BpClient.Arrays.Numbers
import BpClient.Arrays.Scalars
import BpClient.Arrays.Store
import BpClient.Arrays.Strings
import BpClient.Batch.ExactlyOnce
import BpClient.Batch.Model
import BpClient.CPool.Close
import BpClient.CPool.Exclusive
import BpClient.CPool.Handles
import BpClient.CPool.Model
import BpClient.CPool.Open
import BpClient.CPool.Rollback
import BpClient.CPool.Steps
import BpClient.CPool.Wakeup
import BpClient.Calls.Model
import BpClient.Calls.Reply
import BpClient.Calls.Request
import BpClient.Calls.Transparency
import BpClient.Conn.Accounting
import BpClient.Conn.Balance
import BpClient.Conn.Client
import BpClient.Conn.Ledger
import BpClient.Conn.Reply
import BpClient.Conn.Wire
import BpClient.Errors.Mapping
import BpClient.Ipc.Reconnect
import BpClient.Keepalive.Accounted
import BpClient.Keepalive.Model
import BpClient.Lib.Assign
import BpClient.Lib.Batches
import BpClient.Lib.Buffer
import BpClient.Lib.Bytes
import BpClient.Lib.Counter
import BpClient.Lib.FirstError
import BpClient.Lib.Floats
import BpClient.Lib.FreeList
import BpClient.Lib.GuardedCells
import BpClient.Lib.Layout
import BpClient.Lib.Leases
import BpClient.Lib.Monitor
import BpClient.Lib.Progress
import BpClient.Lib.RefTable
import BpClient.Lib.Region
import BpClient.Lib.Table
import BpClient.Lib.Transition
import BpClient.Multi.Codec
import BpClient.Multi.Read
import BpClient.Multi.ReadBack
import BpClient.Multi.Scalar
import BpClient.Multi.Tags
import BpClient.Multi.Validate
import BpClient.Multi.Value
import BpClient.Multi.Write
import BpClient.Pace.Backoff
import BpClient.Pace.Coverage
import BpClient.Pace.Holders
import BpClient.Pace.Model
import BpClient.Route.Hops
import BpClient.Route.UnconnectedSend
import BpClient.SdkPool.AllDead
import BpClient.SdkPool.Control
import BpClient.SdkPool.Custody
import BpClient.SdkPool.Entries
import BpClient.SdkPool.Exclusive
import BpClient.SdkPool.Model
import BpClient.SdkPool.Orphan
import BpClient.SdkPool.Queue
import BpClient.SdkPool.Registry
import BpClient.SdkPool.RetryCap
import BpClient.SdkPool.Steps
import BpClient.Shm.Failure
import BpClient.Shm.Resources
import BpClient.Slot.Dispatcher
import BpClient.Slot.Exclusion
import BpClient.Slot.Leak
import BpClient.Slot.Reply
import BpClient.Slot.Request
import BpClient.Slot.Rest
import BpClient.Slot.Steps
import BpClient.Struct.Framing
import BpClient.Struct.Read
import BpClient.Struct.Reply
import BpClient.Struct.Request
import BpClient.Struct.Store
import BpClient.Symbols.Model
import BpClient.Symbols.OneBuild
import BpClient.Symbols.Paths
import BpClient.Symbols.Rebuild
import BpClient.Symbols.Termination
import BpClient.Tag.Access
import BpClient.Tag.Bounds
import BpClient.Tag.Exchange
import BpClient.Tag.Identity
import BpClient.Tag.Lossless
import BpClient.Tag.Python
import BpClient.Tag.RoundTrip
import BpClient.Ucmm.Send
