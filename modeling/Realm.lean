import Realm.Lib.Run
import Realm.Lib.Int32
import Realm.Lib.Int64
import Realm.Lib.Index
import Realm.Lib.Ring
import Realm.Lib.Span
import Realm.Lib.SortedMap
import Realm.Lib.Block
import Realm.Lib.Cells
import Realm.Lib.Gap
import Realm.Lib.Overlay
import Realm.Lib.Chain
import Realm.Lib.Pack
import Realm.Lib.Collect
import Realm.Lib.Total
import Realm.Lib.Delay
import Realm.Lib.Spmd
import Realm.SrcDataPool.Basic
import Realm.SrcDataPool.Partition
import Realm.SrcDataPool.Runs
import Realm.SrcDataPool.BestFit
import Realm.Mem.Fence
import Realm.Mem.Alloc
import Realm.Mem.Oversized
import Realm.Mem.Instances
import Realm.Endpoint.Basic
import Realm.Endpoint.Segments
import Realm.Endpoint.Send
import Realm.Endpoint.Payload
import Realm.Endpoint.Incoming
import Realm.SrcDataPool.Spill
import Realm.SrcDataPool.Limits
import Realm.Mem.RemoteWrite
import Realm.Mem.Striped
import Realm.Mem.Batch
import Realm.Endpoint.Flow
import Realm.Endpoint.Lmb
import Realm.Endpoint.Manager
import Realm.Endpoint.InOrder
import Realm.Endpoint.Stop
import Realm.Endpoint.IncomingStop
import Realm.Endpoint.Chunks
import Realm.AmMpi.Codec
import Realm.AmMpi.Enqueue
import Realm.Endpoint.Layout
import Realm.AmMpi.Deferred
import Realm.Mem.Strided
import Realm.Mem.Reduce
import Realm.Mem.Serdez
import Realm.AmMpi.Window
import Realm.AmMpi.Marshal
import Realm.Mem.Rdma
import Realm.AmMpi.ThreadId
import Realm.AmMpi.RecvSlots
import Realm.AmMpi.MediumFree
import Realm.AmMpi.Net
import Realm.AmMpi.TwoSided
import Realm.AmMpi.IncomingQueue
import Realm.AmMpi.Poll
import Realm.AmMpi.Finalize
import Realm.AmMpi.PutMedium
import Realm.SrcDataPool.Copy
import Realm.SrcDataPool.CopyInv
import Realm.SrcDataPool.CopyRuns
import Realm.Runtime.DefaultArgs
import Realm.Runtime.Shutdown
import Realm.Runtime.RemoteId
import Realm.Endpoint.ReplyFuture
import Realm.Endpoint.DeferredFree
import Realm.Mem.RemoteAlloc
import Realm.Mem.Proxies
import Realm.Endpoint.MessageIds
import Realm.Endpoint.SrcRelease
import Realm.Endpoint.LongDelivery
import Realm.Mem.FencedWrite
import Realm.Runtime.Collective
import Realm.Runtime.Main
