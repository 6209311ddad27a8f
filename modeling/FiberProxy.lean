import FiberProxy.Lib.Run
import FiberProxy.Lib.Lists
import FiberProxy.Lib.Bytes
import FiberProxy.Lib.Http1
import FiberProxy.Lib.Frames
import FiberProxy.Lib.Decoder
import FiberProxy.Lib.Reads
import FiberProxy.Lib.OrderedSet
import FiberProxy.Lib.Custody
import FiberProxy.Lib.Words
import FiberProxy.Lib.LinkedList
import FiberProxy.Common.Types
import FiberProxy.Common.ByteSizeParser
import FiberProxy.Common.MultiThreadObjMgr
import FiberProxy.Front.RequestParser
import FiberProxy.Http.UrlParser
import FiberProxy.Http.RequestText
import FiberProxy.Http.ResponseText
import FiberProxy.Http.ResponseRoundTrip
import FiberProxy.Http.MessageAssembly
import FiberProxy.Http.HttpParser
import FiberProxy.Http.ParserStates
import FiberProxy.Http.ParserReads
import FiberProxy.Http.ReadLoops
import FiberProxy.Http.ParserText
import FiberProxy.Http.MessageReads
import FiberProxy.Http.ResponseParser
import FiberProxy.Http.AnswerReads
import FiberProxy.Http.ResponseSide
import FiberProxy.Http.ResponseReads
import FiberProxy.Http.OctetView
import FiberProxy.Http.RequestReads
import FiberProxy.Server.FiberPool
import FiberProxy.Server.FiberWorkers
import FiberProxy.Server.TaskHandOff
import FiberProxy.Server.HttpConnection
import FiberProxy.Server.Pipeline
import FiberProxy.Server.DriverConnection
import FiberProxy.Server.DriverResponses
import FiberProxy.Server.PortForwardConnection
import FiberProxy.Client.MuxClient
import FiberProxy.Client.RawReader
import FiberProxy.Client.Correlation
import FiberProxy.Client.Framing
import FiberProxy.Client.FutureTable
import FiberProxy.Client.Recovery
import FiberProxy.Client.RpcClient
import FiberProxy.Client.RpcReader
import FiberProxy.Client.Generations
import FiberProxy.Client.HttpClient
import FiberProxy.Client.GetResponse
import FiberProxy.Client.Connecting
import FiberProxy.Client.ClientMgr
import FiberProxy.Client.IoServices
import FiberProxy.Registry.ServiceInfo
import FiberProxy.Registry.Watcher
import FiberProxy.Registry.Isolation
import FiberProxy.Registry.Lookups
import FiberProxy.Registry.ClusterNames
import FiberProxy.Registry.Polls
import FiberProxy.Registry.PortForward
import FiberProxy.Registry.Failover
import FiberProxy.Registry.AgentPorts
import FiberProxy.Registry.ForwardPorts
import FiberProxy.Registry.ForwardServers
import FiberProxy.Log.FibpLogger
import FiberProxy.Log.LogRing
import FiberProxy.Log.LogSender
import FiberProxy.Log.ServiceStats
import FiberProxy.Log.Alignment
import FiberProxy.Forward.CallSingleService
import FiberProxy.Forward.TransactionMgr
import FiberProxy.Forward.TransactionApi
import FiberProxy.Forward.FanOut
import FiberProxy.Forward.Join
import FiberProxy.Forward.CallLog
import FiberProxy.Forward.FanIn
import FiberProxy.Forward.Nested
import FiberProxy.Forward.Transaction
import FiberProxy.Front.Dispatch
import FiberProxy.Front.SingleCall
import FiberProxy.Front.RpcMethods
import FiberProxy.Front.RawResponse
import FiberProxy.Forward.TableAccess
import FiberProxy.Forward.Retries
import FiberProxy.Forward.Resends
import FiberProxy.Forward.Clusters
import FiberProxy.Fiber.FiberManager
import FiberProxy.Fiber.Scheduler
import FiberProxy.Fiber.Refinement
import FiberProxy.Fiber.Turns
import FiberProxy.Fiber.Frame
import FiberProxy.Fiber.Sync
import FiberProxy.Fiber.Wakeups
