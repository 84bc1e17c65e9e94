import IMServer.Bytes
import IMServer.CString
import IMServer.AddressText
import IMServer.Transition
import IMServer.CachePool
import IMServer.BestFit
import IMServer.PoolOwnership
import IMServer.Buffer
import IMServer.BufferInvariant
import IMServer.BufferAppend
import IMServer.AppendFailure
import IMServer.BufferTake
import IMServer.WriteFailure
import IMServer.ReadRollback
import IMServer.BufferQueue
import IMServer.BufferLeaks
import IMServer.Message
import IMServer.MessageFormat
import IMServer.Server
import IMServer.Formatting
import IMServer.LineReads
import IMServer.Marks
import IMServer.Delivery
import IMServer.Dispatch
import IMServer.ServerRun
import IMServer.DispatchLoop
import IMServer.Framing
import IMServer.Routing
import IMServer.Threads
import IMServer.ClientList
import IMServer.ReadRound
import IMServer.BlockLedger
import IMServer.BlockBalance
import IMServer.PeerAddress
import IMServer.Release
import IMServer.Flush
import IMServer.CausalOrder
import IMServer.ClientInfo
import IMServer.LineFraming
import IMServer.Search
import IMServer.Isolation
import IMServer.Client
import IMServer.Insertion
import IMServer.ClientStream
import IMServer.Attribution
import IMServer.Outgoing
import IMServer.Presence
import IMServer.Broadcast
import IMServer.NameCopies
import IMServer.LockOrder
import IMServer.Locking
import IMServer.PoolPeak
import IMServer.Rings
import IMServer.ListHead
import IMServer.ClientNodes
import IMServer.BufferNodes
import IMServer.Fairness
import IMServer.Spawning
import IMServer.Eventually
import IMServer.Draining
import IMServer.Descriptors
import IMServer.ClientLoop
import IMServer.Chat
import IMServer.Provenance
import IMServer.Lifecycle
import IMServer.AddressRead
import IMServer.SocketAddress
import IMServer.Service
