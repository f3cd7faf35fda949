import Nwchecker.Lib.Loop
import Nwchecker.Lib.Machine
import Nwchecker.Lib.Framing
import Nwchecker.Lib.Words
import Nwchecker.Lib.Doubles
import Nwchecker.Types
import Nwchecker.Qos.Protocol
import Nwchecker.Epoll.Entry
import Nwchecker.Tcp.Handler
import Nwchecker.Connection.Session
import Nwchecker.Connection.Recv
import Nwchecker.Connection.ParseEnds
import Nwchecker.Connection.ParseLoop
import Nwchecker.Connection.Send
import Nwchecker.Connection.Stream
import Nwchecker.Connection.Segmentation
import Nwchecker.Connection.Answers
import Nwchecker.Connection.ClientOutput
import Nwchecker.Lib.Lifetime
import Nwchecker.Lib.Ring
import Nwchecker.ListHead
import Nwchecker.Process.Trace
import Nwchecker.Process.World
import Nwchecker.Process.Lifetimes
import Nwchecker.Process.Runs
import Nwchecker.Tcp.Wakeup
import Nwchecker.Tcp.Connecting
import Nwchecker.Epoll.Looper
import Nwchecker.Epoll.Discipline
import Nwchecker.Qos.Clock
import Nwchecker.Looper.Worker
import Nwchecker.Looper.Dispatch
import Nwchecker.Qos.Memory
import Nwchecker.Qos.Ledger
import Nwchecker.Qos.Ownership
import Nwchecker.Qos.Reports
import Nwchecker.Connection.Accounting
import Nwchecker.Lib.Pacing
import Nwchecker.Epoll.Bandwidth
import Nwchecker.Connection.LossFree
import Nwchecker.Connection.ClientParse
import Nwchecker.Udp.Handler
import Nwchecker.Udp.Client
import Nwchecker.Udp.Boundaries
import Nwchecker.Udp.Accept
import Nwchecker.Udp.Acks
import Nwchecker.Udp.Stamps
import Nwchecker.Lib.Descriptors
import Nwchecker.Sock.Setup
import Nwchecker.Sock.Blocking
import Nwchecker.UnixIo.Connection
import Nwchecker.UnixIo.Server
import Nwchecker.UnixIo.MultiProcess
import Nwchecker.UnixIo.FdSets
import Nwchecker.UnixIo.StreamServer
import Nwchecker.UnixIo.SigioServer
import Nwchecker.UnixIo.Unread
import Nwchecker.Lib.Tickets
import Nwchecker.Iocp.Server
import Nwchecker.Iocp.Accepting
import Nwchecker.Iocp.Balance
import Nwchecker.Iocp.Release
import Nwchecker.Lib.Buffer
import Nwchecker.Java.Selection
import Nwchecker.Nonblock.Server
import Nwchecker.Nonblock.Requests
import Nwchecker.Nonblock.Responses
import Nwchecker.Nonblock.Process
import Nwchecker.Java.Streams
import Nwchecker.MultiThread.Server
import Nwchecker.UdpIo.Message
import Nwchecker.UdpIo.Server
import Nwchecker.Network.SocketHandler
import Nwchecker.Network.IOThread
import Nwchecker.Network.Poller
import Nwchecker.Network.TcpHandler
import Nwchecker.Network.Interest
import Nwchecker.Async.CompletionHandler
import Nwchecker.Qos.Estimators
import Nwchecker.Epoll.Budget
import Nwchecker.Udp.Replies
import Nwchecker.Sock.Candidates
import Nwchecker.Sock.Endpoint
import Nwchecker.Epoll.Kernel
import Nwchecker.Sock.StartUp
import Nwchecker.Connection.Room
import Nwchecker.Udp.Registry
import Nwchecker.UnixIo.Sweep
import Nwchecker.Lib.RingFamily
import Nwchecker.ListRings
import Nwchecker.Lib.Packing
import Nwchecker.Wsa.Table
import Nwchecker.Wsa.Server
import Nwchecker.UnixIo.LoadClient
import Nwchecker.Iocp.Message
import Nwchecker.Nonblock.TCPClient
import Nwchecker.Lib.Pipeline
import Nwchecker.Connection.Exchange
import Nwchecker.Connection.Acknowledged
import Nwchecker.Connection.Drain
import Nwchecker.Lib.Custody
import Nwchecker.UnixIo.HandOver
import Nwchecker.Lib.Holdings
import Nwchecker.UnixIo.Leaks
import Nwchecker.Wsa.Handles
import Nwchecker.Iocp.Clients
import Nwchecker.Lib.Progress
import Nwchecker.Network.WorkOff
import Nwchecker.Lib.Getopt
import Nwchecker.Configuration
import Nwchecker.Process.Fleet
import Nwchecker.Udp.Delivery
import Nwchecker.Mcast.Setup
import Nwchecker.Mcast.Group
import Nwchecker.Lib.Postal
import Nwchecker.UnixIo.UdpPing
import Nwchecker.UnixIo.UdpWaits
import Nwchecker.UnixIo.UdpFinishes
